import Mathlib.Data.UInt
import Nylon.Core.Events

/-!
What a seqno request makes a node do. The handler first answers the request, and then
raises the node's own seqno or forwards the request; the two parts compare the seqnos
with `seqnoGe` and `seqnoGt`, which are both true of seqnos half the range apart.
-/

namespace Nylon.Core

open State Netip Lib

inductive SeqnoAction where
  | answer (route : PubRoute)
  | raise (pfx : Prefix) (seqno : UInt16)
  | forward (nh : NodeId) (hopCnt : UInt8)
  deriving DecidableEq, Repr

section Actions

variable (s : RouterState) (fromNeigh : NodeId) (src : Source) (reqSeqno : UInt16)
  (hopCnt : UInt8)

/-- What is done about a request for a newer seqno than that of the selected route. -/
def newerActions (selRoute : SelRoute) : List SeqnoAction :=
  if selRoute.nodeId = s.id then [.raise selRoute.pfx reqSeqno]
  else if 2 ≤ hopCnt then
    ((forwardTarget (answerRequest s fromNeigh src reqSeqno selRoute).1 fromNeigh src).map
      fun nh => SeqnoAction.forward nh (hopCnt - 1)).toList
  else []

/-- What a request makes the node do, in order. -/
def requestActions : List SeqnoAction :=
  match s.routes.lookup src.pfx with
  | none => []
  | some selRoute =>
    (if answersRequest selRoute src reqSeqno then [.answer selRoute.toPubRoute] else []) ++
    (if selRoute.nodeId = src.nodeId ∧ seqnoGt reqSeqno selRoute.seqno then
      newerActions s fromNeigh src reqSeqno hopCnt selRoute
    else [])

/-- The state and the calls after an action. -/
def SeqnoAction.perform (now : Time) (out : Out) : SeqnoAction → Out
  | .answer route =>
    (updateFeasibility out.1 route, out.2 ++ [.sendRouteUpdate fromNeigh route])
  | .raise pfx seqno =>
    let next := computeRoutes (out.1.setSeqno pfx seqno) now
    (next.1, out.2 ++ next.2)
  | .forward nh hops => (out.1, out.2 ++ [.requestSeqno nh src reqSeqno hops])

theorem handleSeqnoRequest_eq_actions (now : Time) :
    handleSeqnoRequest s now fromNeigh src reqSeqno hopCnt =
      (requestActions s fromNeigh src reqSeqno hopCnt).foldl
        (SeqnoAction.perform fromNeigh src reqSeqno now) (s, []) := by
  unfold handleSeqnoRequest requestActions
  cases s.routes.lookup src.pfx with
  | none => rfl
  | some selRoute =>
    dsimp only
    rw [List.foldl_append]
    have hanswer : (if answersRequest selRoute src reqSeqno = true then
          [SeqnoAction.answer selRoute.toPubRoute] else []).foldl
        (SeqnoAction.perform fromNeigh src reqSeqno now) (s, []) =
        answerRequest s fromNeigh src reqSeqno selRoute := by
      unfold answerRequest
      split <;> rfl
    rw [hanswer]
    split
    · unfold newerActions
      split
      · rfl
      · split
        · cases forwardTarget (answerRequest s fromNeigh src reqSeqno selRoute).1
              fromNeigh src <;> rfl
        · rfl
    · rfl

/-- A neighbour other than the requesting one can be asked. -/
def CanForward : Prop :=
  ∃ n ∈ s.neighbours, ∃ pfx route, n.routes.lookup pfx = some route ∧
    canForwardTo s fromNeigh src n.id route = true

end Actions

section Forwarding

variable {s : RouterState} {fromNeigh : NodeId} {src : Source}

theorem neighContainsFunc_eq_some {f : NodeId → NeighRoute → Bool} {nh : NodeId}
    (h : neighContainsFunc s f = some nh) :
    ∃ n ∈ s.neighbours, n.id = nh ∧ ∃ pfx route, n.routes.lookup pfx = some route ∧
      f nh route = true := by
  obtain ⟨n, hfind, rfl⟩ := Option.map_eq_some_iff.mp h
  have hany := List.find?_some hfind
  obtain ⟨entry, hentry, hf⟩ := List.any_eq_true.mp hany
  exact ⟨n, List.mem_of_find?_eq_some hfind, rfl, entry.1, entry.2,
    AList.mem_lookup_iff.mpr hentry, hf⟩

theorem neighContainsFunc_eq_none {f : NodeId → NeighRoute → Bool}
    (h : neighContainsFunc s f = none) :
    ∀ n ∈ s.neighbours, ∀ pfx route, n.routes.lookup pfx = some route → f n.id route = false := by
  intro n hn pfx route hroute
  have hall := List.find?_eq_none.mp (Option.map_eq_none_iff.mp h) n hn
  by_contra htrue
  exact hall (List.any_eq_true.mpr ⟨⟨pfx, route⟩, AList.mem_lookup_iff.mp hroute,
    Bool.eq_true_of_not_eq_false htrue⟩)

/-- The request goes to a neighbour with a route it can be forwarded along, and with a
feasible one if there is any. -/
theorem forwardTarget_eq_some {nh : NodeId} (h : forwardTarget s fromNeigh src = some nh) :
    ∃ n ∈ s.neighbours, n.id = nh ∧ ∃ pfx route, n.routes.lookup pfx = some route ∧
      canForwardTo s fromNeigh src nh route = true ∧
      ((∃ m ∈ s.neighbours, ∃ pfx' route', m.routes.lookup pfx' = some route' ∧
          canForwardTo s fromNeigh src m.id route' = true ∧
          checkFeasibility s route'.toPubRoute = true) →
        checkFeasibility s route.toPubRoute = true) := by
  unfold forwardTarget at h
  cases hfirst : neighContainsFunc s (fun neigh route =>
      canForwardTo s fromNeigh src neigh route && checkFeasibility s route.toPubRoute) with
  | some first =>
    rw [hfirst] at h
    obtain rfl : first = nh := Option.some.inj h
    obtain ⟨n, hn, hid, pfx, route, hroute, hboth⟩ := neighContainsFunc_eq_some hfirst
    rw [Bool.and_eq_true] at hboth
    exact ⟨n, hn, hid, pfx, route, hroute, hboth.1, fun _ => hboth.2⟩
  | none =>
    rw [hfirst] at h
    obtain ⟨n, hn, hid, pfx, route, hroute, hcan⟩ := neighContainsFunc_eq_some h
    refine ⟨n, hn, hid, pfx, route, hroute, hcan, ?_⟩
    rintro ⟨m, hm, pfx', route', hroute', hcan', hfeasible'⟩
    have hneither := neighContainsFunc_eq_none hfirst m hm pfx' route' hroute'
    rw [hcan', hfeasible'] at hneither
    cases hneither

theorem forwardTarget_eq_none_iff :
    forwardTarget s fromNeigh src = none ↔ ¬ CanForward s fromNeigh src := by
  constructor
  · rintro hnone ⟨n, hn, pfx, route, hroute, hcan⟩
    have hsecond : neighContainsFunc s (canForwardTo s fromNeigh src) = none := by
      unfold forwardTarget at hnone
      exact ((Option.orElse_eq_none _ _).mp hnone).2
    rw [neighContainsFunc_eq_none hsecond n hn pfx route hroute] at hcan
    cases hcan
  · intro hcannot
    by_contra hsome
    obtain ⟨nh, hnh⟩ := Option.ne_none_iff_exists'.mp hsome
    obtain ⟨n, hn, rfl, pfx, route, hroute, hcan, -⟩ := forwardTarget_eq_some hnh
    exact hcannot ⟨n, hn, pfx, route, hroute, hcan⟩

/-- An answer only changes the source table. -/
theorem canForward_answerRequest (reqSeqno : UInt16) (selRoute : SelRoute) :
    CanForward (answerRequest s fromNeigh src reqSeqno selRoute).1 fromNeigh src ↔
      CanForward s fromNeigh src := by
  unfold answerRequest
  split <;> rfl

end Forwarding

section Seqnos

variable {a b : UInt16}

theorem seqnoLt_iff : seqnoLt a b = true ↔ 0 < (b - a).toNat ∧ (b - a).toNat < 2 ^ 15 := by
  simp only [seqnoLt, Bool.and_eq_true, decide_eq_true_eq, UInt16.lt_iff_toNat_lt]
  rfl

theorem toNat_sub_swap (h : a ≠ b) : (b - a).toNat = 2 ^ 16 - (a - b).toNat := by
  have hne : a.toNat ≠ b.toNat := fun hab => h (UInt16.toNat_inj.mp hab)
  have ha := a.toNat_lt
  have hb := b.toNat_lt
  simp only [UInt16.toNat_sub]
  omega

theorem seqnoGt_iff : seqnoGt a b = true ↔ 0 < (a - b).toNat ∧ (a - b).toNat ≤ 2 ^ 15 := by
  unfold seqnoGt seqnoLe
  by_cases hab : a = b
  · subst hab
    simp
  · have hlt := (a - b).toNat_lt
    have hswap := toNat_sub_swap hab
    have hiff := @seqnoLt_iff a b
    have hpos : 0 < (a - b).toNat := by
      apply Nat.pos_of_ne_zero
      intro hzero
      rw [hzero] at hswap
      exact absurd (b - a).toNat_lt (by omega)
    cases hval : seqnoLt a b with
    | true =>
      have := hiff.mp hval
      simp only [beq_eq_false_iff_ne.mpr hab, Bool.or_true, Bool.not_true]
      constructor
      · intro h
        cases h
      · intro h
        omega
    | false =>
      have hnot : ¬ (0 < (b - a).toNat ∧ (b - a).toNat < 2 ^ 15) := by
        rw [← hiff, hval]
        exact Bool.false_ne_true
      simp only [beq_eq_false_iff_ne.mpr hab, Bool.or_false, Bool.not_false, true_iff]
      omega

/-- The two comparisons of the handler overlap at half the range. -/
theorem seqnoGe_and_seqnoGt_iff : (seqnoGe b a = true ∧ seqnoGt a b = true) ↔ a - b = 2 ^ 15 := by
  have hge : seqnoGe b a = true ↔ ¬ (0 < (a - b).toNat ∧ (a - b).toNat < 2 ^ 15) := by
    rw [← seqnoLt_iff]
    simp [seqnoGe]
  rw [hge, seqnoGt_iff, ← UInt16.toNat_inj]
  change _ ↔ (a - b).toNat = 32768
  omega

end Seqnos

/-- The raised seqno is later than the present one, so that an update with it is
feasible at every node whose distance has the present one. -/
structure BumpsForward (s : RouterState) (pfx : Prefix) (seqno : UInt16) : Prop where
  later : seqnoLt (s.getSeqno pfx) seqno = true
  feasible : ∀ (t : RouterState) (adv : PubRoute) (fd : FD), adv.toSource = ⟨s.id, pfx⟩ →
    adv.seqno = seqno → t.sources.lookup adv.toSource = some fd →
    fd.seqno = s.getSeqno pfx → checkFeasibility t adv = true

theorem bumpsForward_iff {s : RouterState} {pfx : Prefix} {seqno : UInt16} :
    BumpsForward s pfx seqno ↔ seqnoLt (s.getSeqno pfx) seqno = true := by
  constructor
  · exact fun h => h.later
  · intro hlater
    refine ⟨hlater, ?_⟩
    intro t adv fd _ hseqno hfd hold
    unfold checkFeasibility
    rw [hfd]
    dsimp only
    rw [hold, hseqno, hlater]
    rfl

section Requests

variable (s : RouterState) (fromNeigh : NodeId) (src : Source) (reqSeqno : UInt16)
  (hopCnt : UInt8)

/-- A request makes the node do one thing at most, and its own seqno only goes
forward. -/
structure OneAction : Prop where
  one : (requestActions s fromNeigh src reqSeqno hopCnt).length ≤ 1
  forward : ∀ pfx seqno, .raise pfx seqno ∈ requestActions s fromNeigh src reqSeqno hopCnt →
    BumpsForward s pfx seqno

/-- The selected route is for another source; or it does not have a seqno half the
range away from the requested one, if it is reachable and the request is for this node
or can be forwarded; and a request for a newer seqno of this node asks for one that is
less than half the range ahead of the node's own. -/
def ClearRequest : Prop :=
  ∀ selRoute, s.routes.lookup src.pfx = some selRoute → selRoute.nodeId = src.nodeId →
    (reqSeqno - selRoute.seqno = 2 ^ 15 → selRoute.metric ≠ INF →
      selRoute.nodeId ≠ s.id ∧ (2 ≤ hopCnt → ¬ CanForward s fromNeigh src)) ∧
    (selRoute.nodeId = s.id → seqnoGt reqSeqno selRoute.seqno = true →
      seqnoLt (s.getSeqno selRoute.pfx) reqSeqno = true)

theorem length_newerActions (selRoute : SelRoute) :
    (newerActions s fromNeigh src reqSeqno hopCnt selRoute).length ≤ 1 ∧
      (newerActions s fromNeigh src reqSeqno hopCnt selRoute = [] ↔
        selRoute.nodeId ≠ s.id ∧ (2 ≤ hopCnt → ¬ CanForward s fromNeigh src)) := by
  unfold newerActions
  by_cases hown : selRoute.nodeId = s.id
  · rw [if_pos hown]
    simp [hown]
  · rw [if_neg hown]
    by_cases hhops : 2 ≤ hopCnt
    · rw [if_pos hhops]
      have hnone := @forwardTarget_eq_none_iff
        (answerRequest s fromNeigh src reqSeqno selRoute).1 fromNeigh src
      rw [canForward_answerRequest] at hnone
      rw [← hnone]
      cases forwardTarget (answerRequest s fromNeigh src reqSeqno selRoute).1 fromNeigh src <;>
        simp [hown, hhops]
    · rw [if_neg hhops]
      simp [hown, hhops]

theorem mem_newerActions_raise {selRoute : SelRoute} {pfx : Prefix} {seqno : UInt16} :
    .raise pfx seqno ∈ newerActions s fromNeigh src reqSeqno hopCnt selRoute ↔
      selRoute.nodeId = s.id ∧ pfx = selRoute.pfx ∧ seqno = reqSeqno := by
  unfold newerActions
  by_cases hown : selRoute.nodeId = s.id
  · rw [if_pos hown]
    simp [hown]
  · rw [if_neg hown]
    split
    · cases forwardTarget (answerRequest s fromNeigh src reqSeqno selRoute).1 fromNeigh src <;>
        simp [hown]
    · simp [hown]

theorem mem_requestActions_raise {pfx : Prefix} {seqno : UInt16} :
    .raise pfx seqno ∈ requestActions s fromNeigh src reqSeqno hopCnt ↔
      ∃ selRoute, s.routes.lookup src.pfx = some selRoute ∧
        (selRoute.nodeId = src.nodeId ∧ seqnoGt reqSeqno selRoute.seqno = true) ∧
        selRoute.nodeId = s.id ∧ pfx = selRoute.pfx ∧ seqno = reqSeqno := by
  unfold requestActions
  cases s.routes.lookup src.pfx with
  | none => simp
  | some selRoute =>
    have hanswer : SeqnoAction.raise pfx seqno ∉
        (if answersRequest selRoute src reqSeqno = true then
          [SeqnoAction.answer selRoute.toPubRoute] else []) := by
      split <;> simp
    simp only [List.mem_append, hanswer, false_or, Option.some.injEq, exists_eq_left']
    rw [← mem_newerActions_raise s fromNeigh src reqSeqno hopCnt]
    split
    · next hnewer => exact (and_iff_right hnewer).symm
    · next hnewer => simp [hnewer]

/-- Two actions are one answer too many, for a seqno half the range away. -/
theorem length_requestActions_iff : (requestActions s fromNeigh src reqSeqno hopCnt).length ≤ 1 ↔
      ∀ selRoute, s.routes.lookup src.pfx = some selRoute → selRoute.nodeId = src.nodeId →
        reqSeqno - selRoute.seqno = 2 ^ 15 → selRoute.metric ≠ INF →
        selRoute.nodeId ≠ s.id ∧ (2 ≤ hopCnt → ¬ CanForward s fromNeigh src) := by
  unfold requestActions
  cases s.routes.lookup src.pfx with
  | none => simp
  | some selRoute =>
    obtain ⟨hone, hempty⟩ := length_newerActions s fromNeigh src reqSeqno hopCnt selRoute
    simp only [Option.some.injEq, forall_eq', ← seqnoGe_and_seqnoGt_iff, ← hempty]
    by_cases hnewer : selRoute.nodeId = src.nodeId ∧ seqnoGt reqSeqno selRoute.seqno = true
    · have hsame := hnewer.1
      have hgt := hnewer.2
      have hanswers : answersRequest selRoute src reqSeqno = true ↔
          selRoute.metric ≠ INF ∧ seqnoGe selRoute.seqno reqSeqno = true := by
        simp [answersRequest, hsame]
      rw [if_pos hnewer, List.length_append]
      by_cases hanswer : answersRequest selRoute src reqSeqno = true
      · obtain ⟨hmetric, hge⟩ := hanswers.mp hanswer
        rw [if_pos hanswer, List.length_singleton]
        constructor
        · intro hlength _ _ _
          exact List.length_eq_zero_iff.mp (by omega)
        · intro h
          rw [h hsame ⟨hge, hgt⟩ hmetric]
          rfl
      · rw [if_neg hanswer, List.length_nil, Nat.zero_add]
        constructor
        · intro _ _ hboth hmetric
          exact absurd (hanswers.mpr ⟨hmetric, hboth.1⟩) hanswer
        · exact fun _ => hone
    · rw [if_neg hnewer]
      constructor
      · intro _ hsame hboth
        exact absurd ⟨hsame, hboth.2⟩ hnewer
      · intro _
        split <;> simp

/-- The handler performs the actions of a request, which are one at most and only raise
the seqno forward exactly if the request is a clear one. -/
theorem seqno_request_iff (now : Time) : handleSeqnoRequest s now fromNeigh src reqSeqno hopCnt =
        (requestActions s fromNeigh src reqSeqno hopCnt).foldl
          (SeqnoAction.perform fromNeigh src reqSeqno now) (s, []) ∧
      (OneAction s fromNeigh src reqSeqno hopCnt ↔
        ClearRequest s fromNeigh src reqSeqno hopCnt) := by
  refine ⟨handleSeqnoRequest_eq_actions s fromNeigh src reqSeqno hopCnt now, ?_, ?_⟩
  · intro h selRoute hsel hsame
    refine ⟨(length_requestActions_iff s fromNeigh src reqSeqno hopCnt).mp h.one selRoute hsel
      hsame, fun hown hnewer => ?_⟩
    apply bumpsForward_iff.mp
    apply h.forward
    exact (mem_requestActions_raise s fromNeigh src reqSeqno hopCnt).mpr
      ⟨selRoute, hsel, ⟨hsame, hnewer⟩, hown, rfl, rfl⟩
  · intro h
    constructor
    case one =>
      apply (length_requestActions_iff s fromNeigh src reqSeqno hopCnt).mpr
      exact fun selRoute hsel hsame => (h selRoute hsel hsame).1
    case forward =>
      intro pfx seqno hraise
      obtain ⟨selRoute, hsel, ⟨hsame, hnewer⟩, hown, rfl, rfl⟩ :=
        (mem_requestActions_raise s fromNeigh src reqSeqno hopCnt).mp hraise
      exact bumpsForward_iff.mpr ((h selRoute hsel hsame).2 hown hnewer)

end Requests

section Forwarded

/-- A run of `computeRoutes` makes no requests. -/
theorem computeRoutes_call_cases {s : RouterState} {now : Time} {call : RouterCall}
    (h : call ∈ (computeRoutes s now).2) :
    (∃ u, call = .broadcastSendRouteUpdate u) ∨ ∃ p r, call = .tableInsertRoute p r := by
  rcases mem_computeRoutes_calls.mp h with ⟨p, new, -, hcall⟩ | ⟨p, old, -, hcall⟩
  · rcases List.mem_append.mp hcall with hcall | hcall
    · split at hcall
      · exact Or.inr ⟨_, _, List.mem_singleton.mp hcall⟩
      · cases hcall
    · split at hcall
      · exact Or.inl ⟨_, List.mem_singleton.mp hcall⟩
      · cases hcall
  · unfold retractions at hcall
    split at hcall
    · rcases List.mem_cons.mp hcall with hcall | hcall
      · exact Or.inl ⟨_, hcall⟩
      · exact Or.inr ⟨_, _, List.mem_singleton.mp hcall⟩
    · cases hcall

variable {s : RouterState} {fromNeigh : NodeId} {src : Source} {reqSeqno : UInt16} {hopCnt : UInt8}
  {nh : NodeId} {hops : UInt8}

theorem mem_requestActions_forward
    (h : .forward nh hops ∈ requestActions s fromNeigh src reqSeqno hopCnt) :
    ∃ selRoute, s.routes.lookup src.pfx = some selRoute ∧ 2 ≤ hopCnt ∧ hops = hopCnt - 1 ∧
      forwardTarget (answerRequest s fromNeigh src reqSeqno selRoute).1 fromNeigh src =
        some nh := by
  unfold requestActions at h
  cases hsel : s.routes.lookup src.pfx with
  | none => simp [hsel] at h
  | some selRoute =>
    simp only [hsel] at h
    rcases List.mem_append.mp h with h | h
    · split at h <;> simp at h
    · split at h
      · unfold newerActions at h
        split at h
        · simp at h
        · split at h
          · next hhops =>
              cases htarget : forwardTarget
                  (answerRequest s fromNeigh src reqSeqno selRoute).1 fromNeigh src with
              | none => simp [htarget] at h
              | some nh' =>
                simp only [htarget, Option.map_some, Option.toList_some,
                  List.mem_singleton, SeqnoAction.forward.injEq] at h
                exact ⟨selRoute, rfl, hhops, h.2, by rw [h.1, htarget]⟩
          · simp at h
      · simp at h

/-- The requests among the calls are the forwarded ones. -/
theorem mem_perform_requestSeqno {now : Time} {src' : Source} {seqno : UInt16}
    {actions : List SeqnoAction} {out : Out}
    (h : .requestSeqno nh src' seqno hops ∈
      (actions.foldl (SeqnoAction.perform fromNeigh src reqSeqno now) out).2) :
    .requestSeqno nh src' seqno hops ∈ out.2 ∨
      .forward nh hops ∈ actions ∧ src' = src ∧ seqno = reqSeqno := by
  induction actions generalizing out with
  | nil => exact Or.inl h
  | cons action rest ih =>
    rcases ih h with hfirst | ⟨hmem, hsrc, hseqno⟩
    · cases action with
      | answer route =>
        rcases List.mem_append.mp hfirst with hout | hcall
        · exact Or.inl hout
        · simp at hcall
      | raise pfx raised =>
        rcases List.mem_append.mp hfirst with hout | hcall
        · exact Or.inl hout
        · rcases computeRoutes_call_cases hcall with ⟨u, hu⟩ | ⟨p, r, hr⟩
          · cases hu
          · cases hr
      | forward nh' hops' =>
        rcases List.mem_append.mp hfirst with hout | hcall
        · exact Or.inl hout
        · cases List.mem_singleton.mp hcall
          exact Or.inr ⟨List.mem_cons_self, rfl, rfl⟩
    · exact Or.inr ⟨List.mem_cons_of_mem _ hmem, hsrc, hseqno⟩

/-- A forwarded request goes to another neighbour, which has an active endpoint and
stores a finite route for the prefix, a feasible one if there is any such neighbour. -/
structure ForwardsWell (t : RouterState) (fromNeigh : NodeId) (src : Source) (nh : NodeId) :
    Prop where
  away : nh ≠ fromNeigh
  active : ∃ m, t.getNeighbour nh = some m ∧ m.active = true
  stored : ∃ n ∈ t.neighbours, n.id = nh ∧ ∃ pfx route, n.routes.lookup pfx = some route ∧
    route.pfx = src.pfx ∧ route.metric ≠ INF ∧
    ((∃ m ∈ t.neighbours, ∃ pfx' route', m.routes.lookup pfx' = some route' ∧
        canForwardTo t fromNeigh src m.id route' = true ∧
        checkFeasibility t route'.toPubRoute = true) →
      checkFeasibility t route.toPubRoute = true)

theorem forwardTarget_forwardsWell {t : RouterState}
    (h : forwardTarget t fromNeigh src = some nh) : ForwardsWell t fromNeigh src nh := by
  obtain ⟨n, hn, hid, pfx, route, hroute, hcan, hfeasible⟩ := forwardTarget_eq_some h
  unfold canForwardTo at hcan
  simp only [Bool.and_eq_true, beq_iff_eq, bne_iff_ne, Option.any_eq_true] at hcan
  obtain ⟨⟨m, hm, hactive⟩, ⟨hpfx, haway⟩, hfinite⟩ := hcan
  exact ⟨haway, ⟨m, hm, hactive⟩, n, hn, hid, pfx, route, hroute, hpfx.symm, hfinite, hfeasible⟩

/-- A call that forwards passes the request on, with one hop less. -/
theorem handleSeqnoRequest_forwards {now : Time} {src' : Source} {seqno : UInt16}
    (h : .requestSeqno nh src' seqno hops ∈
      (handleSeqnoRequest s now fromNeigh src reqSeqno hopCnt).2) :
    (src' = src ∧ seqno = reqSeqno ∧ 2 ≤ hopCnt ∧ hops = hopCnt - 1) ∧
      ForwardsWell (handleSeqnoRequest s now fromNeigh src reqSeqno hopCnt).1 fromNeigh src
        nh := by
  have hactions := h
  rw [handleSeqnoRequest_eq_actions] at hactions
  obtain ⟨hforward, rfl, rfl⟩ :
      .forward nh hops ∈ requestActions s fromNeigh src reqSeqno hopCnt ∧ src' = src ∧
        seqno = reqSeqno := by
    rcases mem_perform_requestSeqno hactions with hnil | hforward
    · cases hnil
    · exact hforward
  obtain ⟨selRoute, hsel, hhops, rfl, htarget⟩ := mem_requestActions_forward hforward
  refine ⟨⟨rfl, rfl, hhops, rfl⟩, ?_⟩
  have hstate : (handleSeqnoRequest s now fromNeigh src' seqno hopCnt).1 =
      (answerRequest s fromNeigh src' seqno selRoute).1 := by
    rcases handleSeqnoRequest_cases s now fromNeigh src' seqno hopCnt with
      ⟨t, selRoute', _, _, _, hout⟩ | ⟨_, ⟨hnone, _⟩ | ⟨selRoute', forwarded, hsel', hout, _⟩⟩
    · -- a raise makes no requests, and neither does an answer
      rw [hout] at h
      rcases List.mem_append.mp h with hcall | hcall
      · unfold answerRequest at hcall
        split at hcall <;> simp at hcall
      · rcases computeRoutes_call_cases hcall with ⟨u, hu⟩ | ⟨p, r, hr⟩
        · cases hu
        · cases hr
    · rw [hsel] at hnone
      cases hnone
    · rw [hout, Option.some.inj (hsel.symm.trans hsel')]
  rw [hstate]
  exact forwardTarget_forwardsWell htarget

end Forwarded

section Sample

def samplePrefix : Prefix := ⟨.v4 0x0A000100, 24, Prefix.bits24_le⟩

/-- A node with a route to its own prefix, which has the seqno zero. -/
def ownRoute : RouterState :=
  {RouterState.init defaultRouterTunables "a" with
    routes := AList.insert samplePrefix ⟨⟨⟨"a", samplePrefix⟩, ⟨0, 0⟩⟩, "a", 0, []⟩ ∅}

/-- The own seqno was raised since, and the route does not have it yet. -/
def raisedSince : RouterState := ownRoute.setSeqno samplePrefix 2

/-- A request for a seqno half the range away is answered and raises the seqno, to one
that is not later. A request between the seqno of the route and the node's own lowers
the own one. -/
theorem half_range_request_answered_and_raised :
    requestActions ownRoute "b" ⟨"a", samplePrefix⟩ 0x8000 64 =
        [.answer ⟨⟨"a", samplePrefix⟩, ⟨0, 0⟩⟩, .raise samplePrefix 0x8000] ∧
      ¬ OneAction ownRoute "b" ⟨"a", samplePrefix⟩ 0x8000 64 ∧
      ¬ BumpsForward ownRoute samplePrefix 0x8000 ∧
      .raise samplePrefix 1 ∈ requestActions raisedSince "b" ⟨"a", samplePrefix⟩ 1 64 ∧
      ¬ BumpsForward raisedSince samplePrefix 1 := by
  have hactions : requestActions ownRoute "b" ⟨"a", samplePrefix⟩ 0x8000 64 =
      [.answer ⟨⟨"a", samplePrefix⟩, ⟨0, 0⟩⟩, .raise samplePrefix 0x8000] := by
    decide +kernel
  refine ⟨hactions, ?_, ?_, by decide +kernel, ?_⟩
  · intro h
    have hone := h.one
    rw [hactions] at hone
    exact absurd hone (by decide)
  · intro h
    exact absurd h.later (by decide +kernel)
  · intro h
    exact absurd h.later (by decide +kernel)

end Sample

end Nylon.Core
