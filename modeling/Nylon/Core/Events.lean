import Nylon.Lib.Transitions
import Nylon.Core.RouterHandlers
import Nylon.Core.ComputeSpec

/-!
The router of one node as a state machine. An event is a call of one of the
entry points of the router, or a change of what the router reads: links, own
advertisements and configured neighbours. Messages and clock values are
arbitrary. Every event runs `computeRoutes` at most once; `recompute` gives the
state it runs on, and the route table changes in no other way.
-/

namespace Nylon.Core

open State Netip Lib

variable {s t : RouterState} {e : Event} {now : Time}

inductive Event where
  | neighbourUpdate (now : Time) (neigh : NodeId) (adv : PubRoute)
  | computeRoutes (now : Time)
  | fullTableUpdate
  | pushFullTable (neigh : NodeId)
  | seqnoRequest (now : Time) (fromNeigh : NodeId) (src : Source)
      (reqSeqno : UInt16) (hopCnt : UInt8)
  | ackRetract (now : Time) (neigh : NodeId) (pfx : Prefix)
  | solveStarvation
  | runGC (now : Time)
  | setLink (neigh : NodeId) (active : Bool) (linkCost : Metric)
  | advertise (pfx : Prefix) (adv : Advertisement)
  | withdraw (pfx : Prefix)
  | passiveClient (now : Time) (pfx : Prefix) (node : NodeId) (passiveHold : Bool)
      (metricFn : Option Metric)
  | reconcileNeighbours (peers : List NodeId)
  deriving DecidableEq

def setLink (s : RouterState) (neigh : NodeId) (active : Bool)
    (linkCost : Metric) : RouterState :=
  s.modifyNeighbour neigh fun n => {n with active := active, linkCost := linkCost}

def step (s : RouterState) : Event → Out
  | .neighbourUpdate now neigh adv => handleNeighbourUpdate s now neigh adv
  | .computeRoutes now => computeRoutes s now
  | .fullTableUpdate => fullTableUpdate s
  | .pushFullTable neigh => pushFullTable s neigh
  | .seqnoRequest now fromNeigh src reqSeqno hopCnt =>
    handleSeqnoRequest s now fromNeigh src reqSeqno hopCnt
  | .ackRetract now neigh pfx => handleAckRetract s now neigh pfx
  | .solveStarvation => solveStarvation s
  | .runGC now => runGC s now
  | .setLink neigh active linkCost => (setLink s neigh active linkCost, [])
  | .advertise pfx adv => ({s with advertised := s.advertised.insert pfx adv}, [])
  | .withdraw pfx => ({s with advertised := s.advertised.erase pfx}, [])
  | .passiveClient now pfx node passiveHold metricFn =>
    (updatePassiveClient s now pfx node passiveHold metricFn, [])
  | .reconcileNeighbours peers => (reconcileNeighbours s peers, [])

/-- The state a seqno request recomputes the routes of: the request asks for a
newer seqno of a source of this node. -/
def raiseSeqno (s : RouterState) (fromNeigh : NodeId) (src : Source)
    (reqSeqno : UInt16) : Option RouterState :=
  (s.routes.lookup src.pfx).bind fun selRoute =>
    if (selRoute.nodeId = src.nodeId ∧ seqnoGt reqSeqno selRoute.seqno) ∧
        selRoute.nodeId = s.id then
      some ((answerRequest s fromNeigh src reqSeqno selRoute).1.setSeqno selRoute.pfx reqSeqno)
    else none

/-- The state on which an event runs `computeRoutes`, and the time of the run. -/
def recompute (s : RouterState) : Event → Option (RouterState × Time)
  | .computeRoutes now => some (s, now)
  | .seqnoRequest now fromNeigh src reqSeqno _ =>
    (raiseSeqno s fromNeigh src reqSeqno).map (·, now)
  | .ackRetract now neigh pfx => (recordAck s neigh pfx).map (·, now)
  | .runGC now => some (expireRoutes s now, now)
  | _ => none

/-- The state after a sequence of events. -/
abbrev run (s : RouterState) (events : List Event) : RouterState :=
  Transitions.run (fun s e => (step s e).1) s events

/-- Every event meets a condition in the state in which it happens. -/
abbrev Along (cond : RouterState → Event → Prop) (s : RouterState)
    (events : List Event) : Prop :=
  Transitions.Along (fun s e => (step s e).1) cond s events

/-- The prefix whose forwarding entry a call changes. -/
def RouterCall.tablePrefix : RouterCall → Option Prefix
  | .tableInsertRoute pfx _ => some pfx
  | .tableDeleteRoute pfx => some pfx
  | _ => none

theorem announceTable_state (s : RouterState) (announce : PubRoute → RouterCall) :
    (announceTable s announce).1 =
      { s with
        sources := s.routes.range (fun sources _ route =>
          if route.metric ≠ INF then
            sources.insert route.toSource
              (maintainFD (sources.lookup route.toSource) route.toFD)
          else sources) s.sources } := by
  refine (Table.range_hom s.routes Prod.fst _
    (fun (state : RouterState) _ route =>
      if route.metric ≠ INF then updateFeasibility state route.toPubRoute
      else state) (s, []) ?_).trans ?_
  · intro out pfx route
    rfl
  · refine (Table.range_hom s.routes
      (fun sources : Table Source FD => {s with sources := sources})
      _ _ s.sources ?_).symm
    intro sources pfx route
    split <;> rfl

theorem announceTable_calls (s : RouterState) (announce : PubRoute → RouterCall) :
    (announceTable s announce).2 =
      s.routes.entries.flatMap (fun entry => [announce entry.2.toPubRoute]) := by
  refine (Table.range_append s.routes _ (s, []) (fun _ => True)
    (Prod.snd : Out → List RouterCall)
    (fun _ route => [announce route.toPubRoute]) trivial ?_).trans
    (List.nil_append _)
  intro out pfx route _ _
  exact ⟨rfl, trivial⟩

@[simp] theorem modifyNeighbour_routes (s : RouterState) (node : NodeId)
    (f : Neighbour → Neighbour) : (s.modifyNeighbour node f).routes = s.routes := rfl

@[simp] theorem updatePassiveClient_routes (s : RouterState) (now : Time)
    (pfx : Prefix) (node : NodeId) (hold : Bool) (metricFn : Option Metric) :
    (updatePassiveClient s now pfx node hold metricFn).routes = s.routes := by
  unfold updatePassiveClient
  dsimp only
  split <;> rfl

@[simp] theorem answerRequest_routes (s : RouterState) (fromNeigh : NodeId)
    (src : Source) (reqSeqno : UInt16) (selRoute : SelRoute) :
    (answerRequest s fromNeigh src reqSeqno selRoute).1.routes = s.routes := by
  unfold answerRequest
  split <;> rfl

/-- An acknowledgement is recorded for an `INF` entry that does not list the
neighbour yet. -/
theorem recordAck_eq_some {neigh : NodeId} {pfx : Prefix} (h : recordAck s neigh pfx = some t) :
    ∃ rt, s.routes.lookup pfx = some rt ∧ rt.metric = INF ∧ neigh ∉ rt.retractedBy ∧ t = { s with
        routes := s.routes.insert pfx
          {rt with retractedBy := rt.retractedBy ++ [neigh]} } := by
  unfold recordAck at h
  cases hrt : s.routes.lookup pfx with
  | none => simp [hrt] at h
  | some rt =>
    simp only [hrt] at h
    split at h
    · cases h
    · next hmetric =>
      split at h
      · cases h
      · next hlisted =>
        exact ⟨rt, rfl, not_not.mp hmetric, by simpa using hlisted,
          (Option.some.inj h).symm⟩

/-- A seqno request either runs `computeRoutes` after its answer, or leaves the
answered state. -/
theorem handleSeqnoRequest_cases (s : RouterState) (now : Time)
    (fromNeigh : NodeId) (src : Source) (reqSeqno : UInt16) (hopCnt : UInt8) :
    (∃ t selRoute, raiseSeqno s fromNeigh src reqSeqno = some t ∧
      s.routes.lookup src.pfx = some selRoute ∧
      t = (answerRequest s fromNeigh src reqSeqno selRoute).1.setSeqno selRoute.pfx reqSeqno ∧
      handleSeqnoRequest s now fromNeigh src reqSeqno hopCnt =
        ((computeRoutes t now).1,
          (answerRequest s fromNeigh src reqSeqno selRoute).2 ++
            (computeRoutes t now).2)) ∨
    (raiseSeqno s fromNeigh src reqSeqno = none ∧
      ((s.routes.lookup src.pfx = none ∧
        handleSeqnoRequest s now fromNeigh src reqSeqno hopCnt = (s, [])) ∨
      ∃ selRoute forwarded, s.routes.lookup src.pfx = some selRoute ∧
        handleSeqnoRequest s now fromNeigh src reqSeqno hopCnt =
          ((answerRequest s fromNeigh src reqSeqno selRoute).1,
            (answerRequest s fromNeigh src reqSeqno selRoute).2 ++ forwarded) ∧
        ∀ call ∈ forwarded, ∃ neigh hops, call = .requestSeqno neigh src reqSeqno hops)) := by
  unfold handleSeqnoRequest raiseSeqno
  cases hsel : s.routes.lookup src.pfx with
  | none => exact Or.inr ⟨rfl, Or.inl ⟨rfl, rfl⟩⟩
  | some selRoute =>
    have hanswer : ∃ selRoute' forwarded, some selRoute = some selRoute' ∧
        answerRequest s fromNeigh src reqSeqno selRoute =
          ((answerRequest s fromNeigh src reqSeqno selRoute').1,
            (answerRequest s fromNeigh src reqSeqno selRoute').2 ++ forwarded) ∧
        ∀ call ∈ forwarded, ∃ neigh hops, call = RouterCall.requestSeqno neigh src reqSeqno hops :=
      ⟨selRoute, [], rfl, by simp, by simp⟩
    simp only [Option.bind_some]
    by_cases hnewer : selRoute.nodeId = src.nodeId ∧ seqnoGt reqSeqno selRoute.seqno = true
    · by_cases hself : selRoute.nodeId = s.id
      · refine Or.inl ⟨_, selRoute, if_pos ⟨hnewer, hself⟩, rfl, rfl, ?_⟩
        rw [if_pos hnewer, if_pos hself]
      · refine Or.inr ⟨if_neg fun h => hself h.2, Or.inr ?_⟩
        rw [if_pos hnewer, if_neg hself]
        split
        · cases forwardTarget (answerRequest s fromNeigh src reqSeqno selRoute).1 fromNeigh src with
          | none => exact hanswer
          | some nh => exact ⟨selRoute, _, rfl, rfl, by simp⟩
        · exact hanswer
    · refine Or.inr ⟨if_neg fun h => hnewer h.1, Or.inr ?_⟩
      rw [if_neg hnewer]
      exact hanswer

theorem answerRequest_tablePrefix (s : RouterState) (fromNeigh : NodeId)
    (src : Source) (reqSeqno : UInt16) (selRoute : SelRoute) :
    ∀ call ∈ (answerRequest s fromNeigh src reqSeqno selRoute).2, call.tablePrefix = none := by
  unfold answerRequest
  split <;> simp [RouterCall.tablePrefix]

theorem announceTable_tablePrefix (s : RouterState) (announce : PubRoute → RouterCall)
    (hannounce : ∀ r, (announce r).tablePrefix = none) :
    ∀ call ∈ (announceTable s announce).2, call.tablePrefix = none := by
  intro call hcall
  rw [announceTable_calls, List.mem_flatMap] at hcall
  obtain ⟨entry, _, hcall⟩ := hcall
  rw [List.mem_singleton.mp hcall]
  exact hannounce _

/-- An update either changes nothing or is stored, and is answered at most by an
acknowledgement and a seqno request. -/
theorem handleNeighbourUpdate_cases (s : RouterState) (now : Time)
    (neigh : NodeId) (adv : PubRoute) :
    ((handleNeighbourUpdate s now neigh adv).1 = s ∨
      (handleNeighbourUpdate s now neigh adv).1 = s.modifyNeighbour neigh (storeUpdate s now adv)) ∧
    ∀ call ∈ (handleNeighbourUpdate s now neigh adv).2,
      (call = .sendAckRetract neigh adv.pfx ∧ adv.metric = INF) ∨
      call = .requestSeqno neigh adv.toSource (nextSeqno s adv.toSource)
        s.seqnoRequestHopCount := by
  unfold handleNeighbourUpdate
  cases s.getNeighbour neigh with
  | none => simp
  | some n =>
    dsimp only
    generalize hacks : (if adv.metric = INF then
      [RouterCall.sendAckRetract neigh adv.pfx] else []) = acks
    have hack : ∀ call ∈ acks, call = .sendAckRetract neigh adv.pfx ∧ adv.metric = INF := by
      rw [← hacks]
      split
      · next hINF => simp [hINF]
      · simp
    cases n.routes.lookup adv.pfx with
    | none =>
      dsimp only
      split_ifs
      · exact ⟨Or.inl rfl, fun call h => Or.inl (hack call h)⟩
      · exact ⟨Or.inl rfl, fun call h => Or.inl (hack call h)⟩
      · exact ⟨Or.inr rfl, fun call h => Or.inl (hack call h)⟩
    | some _ =>
      have hboth : ∀ call ∈ acks ++ [RouterCall.requestSeqno neigh adv.toSource
          (nextSeqno s adv.toSource) s.seqnoRequestHopCount],
          (call = .sendAckRetract neigh adv.pfx ∧ adv.metric = INF) ∨
          call = .requestSeqno neigh adv.toSource (nextSeqno s adv.toSource)
            s.seqnoRequestHopCount := by
        intro call hcall
        rcases List.mem_append.mp hcall with h | h
        · exact Or.inl (hack call h)
        · exact Or.inr (List.mem_singleton.mp h)
      dsimp only
      split_ifs
      · exact ⟨Or.inl rfl, hboth⟩
      · exact ⟨Or.inr rfl, hboth⟩
      · exact ⟨Or.inr rfl, fun call h => Or.inl (hack call h)⟩
      · exact ⟨Or.inr rfl, fun call h => Or.inl (hack call h)⟩

theorem handleNeighbourUpdate_routes (s : RouterState) (now : Time)
    (neigh : NodeId) (adv : PubRoute) :
    (handleNeighbourUpdate s now neigh adv).1.routes = s.routes := by
  rcases (handleNeighbourUpdate_cases s now neigh adv).1 with h | h <;> simp [h]

/-- Starvation only makes seqno requests. -/
theorem mem_solveStarvation_calls (s : RouterState) : ∀ call ∈ (solveStarvation s).2,
      ∃ src seqno hops, call = .broadcastRequestSeqno src seqno hops := by
  simp only [solveStarvation]
  refine Table.range_invariant (feasibleSources s) _ []
    (fun calls : List RouterCall => ∀ call ∈ calls,
      ∃ src seqno hops, call = .broadcastRequestSeqno src seqno hops) ?_ ?_
  · simp
  · intro calls src feasible _ hcalls call hcall
    split at hcall
    · rcases List.mem_append.mp hcall with h | h
      · exact hcalls call h
      · exact ⟨_, _, _, List.mem_singleton.mp h⟩
    · exact hcalls call hcall

/-- Without a run of `computeRoutes` the routes stay and no forwarding entry is
changed. -/
theorem step_of_recompute_none (h : recompute s e = none) :
    (step s e).1.routes = s.routes ∧ ∀ call ∈ (step s e).2, call.tablePrefix = none := by
  cases e with
  | neighbourUpdate now neigh adv =>
    refine ⟨handleNeighbourUpdate_routes s now neigh adv, ?_⟩
    intro call hcall
    rcases (handleNeighbourUpdate_cases s now neigh adv).2 call hcall with
      ⟨rfl, _⟩ | rfl <;> rfl
  | computeRoutes now => cases h
  | fullTableUpdate =>
    refine ⟨?_, announceTable_tablePrefix s _ fun _ => rfl⟩
    rw [step, fullTableUpdate, announceTable_state]
  | pushFullTable neigh =>
    refine ⟨?_, announceTable_tablePrefix s _ fun _ => rfl⟩
    rw [step, pushFullTable, announceTable_state]
  | seqnoRequest now fromNeigh src reqSeqno hopCnt =>
    simp only [recompute, Option.map_eq_none_iff] at h
    rcases handleSeqnoRequest_cases s now fromNeigh src reqSeqno hopCnt with
      ⟨t, _, ht, _⟩ | ⟨_, ⟨_, hout⟩ | ⟨selRoute, forwarded, _, hout, hfwd⟩⟩
    · rw [h] at ht
      cases ht
    · simp [step, hout]
    · simp only [step, hout, answerRequest_routes, true_and]
      intro call hcall
      rcases List.mem_append.mp hcall with hcall | hcall
      · exact answerRequest_tablePrefix s fromNeigh src reqSeqno selRoute call hcall
      · obtain ⟨neigh, hops, rfl⟩ := hfwd call hcall
        rfl
  | ackRetract now neigh pfx =>
    simp only [recompute, Option.map_eq_none_iff] at h
    simp [step, handleAckRetract, h]
  | solveStarvation =>
    refine ⟨rfl, ?_⟩
    intro call hcall
    obtain ⟨src, seqno, hops, rfl⟩ := mem_solveStarvation_calls s call hcall
    rfl
  | runGC now => cases h
  | setLink neigh active linkCost => simp [step, setLink]
  | advertise pfx adv => simp [step]
  | withdraw pfx => simp [step]
  | passiveClient now pfx node passiveHold metricFn => simp [step]
  | reconcileNeighbours peers => simp [step, reconcileNeighbours]

/-- The state an event hands to `computeRoutes`: the present one with the seqno
raised, with an acknowledgement recorded, or with expired routes removed. -/
theorem recompute_cases (h : recompute s e = some (t, now)) : (e = .computeRoutes now ∧ t = s) ∨
    (∃ fromNeigh src reqSeqno hopCnt selRoute, e = .seqnoRequest now fromNeigh src reqSeqno hopCnt ∧
      s.routes.lookup src.pfx = some selRoute ∧
      t = (answerRequest s fromNeigh src reqSeqno selRoute).1.setSeqno selRoute.pfx reqSeqno ∧
      step s e = ((computeRoutes t now).1,
        (answerRequest s fromNeigh src reqSeqno selRoute).2 ++
          (computeRoutes t now).2)) ∨
    (∃ neigh pfx, e = .ackRetract now neigh pfx ∧
      recordAck s neigh pfx = some t ∧ step s e = computeRoutes t now) ∨
    (e = .runGC now ∧ t = expireRoutes s now) := by
  cases e with
  | computeRoutes now' =>
    simp only [recompute, Option.some.injEq, Prod.mk.injEq] at h
    obtain ⟨rfl, rfl⟩ := h
    exact Or.inl ⟨rfl, rfl⟩
  | seqnoRequest now' fromNeigh src reqSeqno hopCnt =>
    simp only [recompute, Option.map_eq_some_iff, Prod.mk.injEq] at h
    obtain ⟨t', ht', rfl, rfl⟩ := h
    rcases handleSeqnoRequest_cases s now' fromNeigh src reqSeqno hopCnt with
      ⟨t, selRoute, ht, hsel, hstate, hout⟩ | ⟨hnone, _⟩
    · obtain rfl : t' = t := by simpa [ht'] using ht
      exact Or.inr (Or.inl ⟨fromNeigh, src, reqSeqno, hopCnt, selRoute, rfl, hsel, hstate, hout⟩)
    · rw [ht'] at hnone
      cases hnone
  | ackRetract now' neigh pfx =>
    simp only [recompute, Option.map_eq_some_iff, Prod.mk.injEq] at h
    obtain ⟨t', ht', rfl, rfl⟩ := h
    refine Or.inr (Or.inr (Or.inl ⟨neigh, pfx, rfl, ht', ?_⟩))
    simp [step, handleAckRetract, ht']
  | runGC now' =>
    simp only [recompute, Option.some.injEq, Prod.mk.injEq] at h
    obtain ⟨rfl, rfl⟩ := h
    exact Or.inr (Or.inr (Or.inr ⟨rfl, rfl⟩))
  | _ => cases h

/-- With a run of `computeRoutes` the state is the one the run leaves, up to
collected sources, and the forwarding entries change as in the run. -/
theorem step_of_recompute_some (h : recompute s e = some (t, now)) :
    (step s e).1 = {(computeRoutes t now).1 with sources := (step s e).1.sources} ∧
      ∃ sent, (step s e).2 = sent ++ (computeRoutes t now).2 ∧
        ∀ call ∈ sent, call.tablePrefix = none := by
  rcases recompute_cases h with ⟨rfl, rfl⟩ |
    ⟨fromNeigh, src, reqSeqno, _, selRoute, rfl, _, _, hout⟩ |
    ⟨neigh, pfx, rfl, _, hout⟩ | ⟨rfl, rfl⟩
  · exact ⟨rfl, [], rfl, by simp⟩
  · rw [hout]
    exact ⟨rfl, _, rfl, answerRequest_tablePrefix s fromNeigh src reqSeqno selRoute⟩
  · rw [hout]
    exact ⟨rfl, [], rfl, by simp⟩
  · exact ⟨rfl, [], rfl, by simp⟩

theorem step_routes_of_recompute_some (h : recompute s e = some (t, now)) :
    (step s e).1.routes = (computeRoutes t now).1.routes := by
  rw [(step_of_recompute_some h).1]

/-- A route was there before the event, or the run of the event leaves it. -/
theorem route_step {p : Prefix} {r : SelRoute} (hr : (step s e).1.routes.lookup p = some r) :
    s.routes.lookup p = some r ∨
      ∃ t now, recompute s e = some (t, now) ∧ finalRoute t now p = some r := by
  cases hrecompute : recompute s e with
  | none =>
    rw [(step_of_recompute_none hrecompute).1] at hr
    exact Or.inl hr
  | some run =>
    rw [step_routes_of_recompute_some hrecompute, lookup_computeRoutes] at hr
    exact Or.inr ⟨run.1, run.2, rfl, hr⟩

end Nylon.Core
