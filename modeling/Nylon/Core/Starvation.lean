import Nylon.Core.SeqnoRequests

/-!
Starvation. A source is starved if connected neighbours store routes for it and no
finite one of them is feasible. `solveStarvation` asks for a newer seqno of exactly the
starved sources, and a seqno asked for is one the feasibility check accepts, as long as
the feasibility distance keeps the seqno from which the request was computed.
-/

namespace Nylon.Core

open State Netip Lib

section Starved

variable (s : RouterState) (src : Source)

/-- A finite stored route that may be selected. -/
def feasibleRoute (route : NeighRoute) : Bool :=
  route.metric != INF && checkFeasibility s route.toPubRoute

structure Starved : Prop where
  stored : ∃ n ∈ s.neighbours, n.active = true ∧ ∃ pfx route,
    n.routes.lookup pfx = some route ∧ route.toSource = src
  unfeasible : ∀ n ∈ s.neighbours, n.active = true → ∀ pfx route,
    n.routes.lookup pfx = some route → route.toSource = src → route.metric ≠ INF →
      checkFeasibility s route.toPubRoute = false

/-- The routes the connected neighbours store, in the order in which they are visited. -/
def connectedRoutes : List NeighRoute :=
  s.neighbours.flatMap fun n =>
    if n.active then n.routes.entries.map fun entry => entry.2 else []

variable {s src}

theorem mem_connectedRoutes {route : NeighRoute} :
    route ∈ connectedRoutes s ↔ ∃ n ∈ s.neighbours, n.active = true ∧ ∃ pfx,
      n.routes.lookup pfx = some route := by
  unfold connectedRoutes
  simp only [List.mem_flatMap]
  apply exists_congr
  intro n
  apply and_congr_right
  intro _
  cases n.active with
  | false => simp
  | true =>
    simp only [if_true, true_and, List.mem_map]
    constructor
    · rintro ⟨⟨pfx, r⟩, hentry, rfl⟩
      exact ⟨pfx, (Table.mem_entries_iff n.routes pfx r).mp hentry⟩
    · rintro ⟨pfx, hroute⟩
      exact ⟨⟨pfx, route⟩, (Table.mem_entries_iff n.routes pfx route).mpr hroute, rfl⟩

theorem starved_iff : Starved s src ↔ (∃ route ∈ connectedRoutes s, route.toSource = src) ∧
      ∀ route ∈ connectedRoutes s, route.toSource = src → feasibleRoute s route = false := by
  constructor
  · rintro ⟨⟨n, hn, hactive, pfx, route, hroute, hsrc⟩, hunfeasible⟩
    refine ⟨⟨route, mem_connectedRoutes.mpr ⟨n, hn, hactive, pfx, hroute⟩, hsrc⟩, ?_⟩
    intro r hr hsource
    obtain ⟨m, hm, hlinked, p, hp⟩ := mem_connectedRoutes.mp hr
    have hr := hunfeasible m hm hlinked p r hp hsource
    by_cases hfinite : r.metric = INF
    · simp [feasibleRoute, hfinite]
    · simp [feasibleRoute, hr hfinite]
  · rintro ⟨⟨route, hroute, hsrc⟩, hunfeasible⟩
    obtain ⟨n, hn, hactive, pfx, hlookup⟩ := mem_connectedRoutes.mp hroute
    refine ⟨⟨n, hn, hactive, pfx, route, hlookup, hsrc⟩, ?_⟩
    intro m hm hlinked p r hp hsource hfinite
    have hr := hunfeasible r (mem_connectedRoutes.mpr ⟨m, hm, hlinked, p, hp⟩) hsource
    simpa [feasibleRoute, hfinite] using hr

end Starved

section Accumulation

variable (s : RouterState)

/-- One visited route: its source is feasible if it was before or the route is. -/
def countRoute (table : Table Source Bool) (route : NeighRoute) : Table Source Bool :=
  table.insert route.toSource
    ((table.lookup route.toSource).getD false || feasibleRoute s route)

theorem feasibleSources_eq : feasibleSources s = (connectedRoutes s).foldl (countRoute s) ∅ := by
  unfold feasibleSources connectedRoutes
  rw [List.foldl_flatMap]
  congr 1
  funext table n
  cases n.active with
  | false => rfl
  | true =>
    simp only [if_true, List.foldl_map]
    rfl

/-- A source is in the table as soon as one of its routes was visited, and it counts as
feasible if one of them was. -/
theorem lookup_countRoutes (routes : List NeighRoute) (table : Table Source Bool) (src : Source) :
    (routes.foldl (countRoute s) table).lookup src =
      if (∃ route ∈ routes, route.toSource = src) then
        some ((table.lookup src).getD false ||
          routes.any fun route => route.toSource == src && feasibleRoute s route)
      else table.lookup src := by
  induction routes generalizing table with
  | nil => simp
  | cons route rest ih =>
    rw [List.foldl_cons, ih, countRoute, Table.lookup_insert_eq]
    by_cases hroute : route.toSource = src
    · subst hroute
      by_cases hrest : ∃ r ∈ rest, r.toSource = route.toSource
      · simp [hrest, Bool.or_assoc]
      · have hnone : (rest.any fun r =>
            r.toSource == route.toSource && feasibleRoute s r) = false := by
          simp only [List.any_eq_false, Bool.and_eq_true, beq_iff_eq]
          intro r hr hboth
          exact hrest ⟨r, hr, hboth.1⟩
        simp only [List.any_cons, hnone]
        simp [hrest]
    · have hne : src ≠ route.toSource := fun h => hroute h.symm
      have hbeq : (route.toSource == src) = false := beq_eq_false_iff_ne.mpr hroute
      simp only [List.any_cons, hbeq]
      simp [hroute, hne]

theorem lookup_feasibleSources_eq_false (src : Source) :
    (feasibleSources s).lookup src = some false ↔ Starved s src := by
  rw [feasibleSources_eq, lookup_countRoutes, starved_iff]
  by_cases hstored : ∃ route ∈ connectedRoutes s, route.toSource = src
  · simp [hstored]
  · simp [hstored]

end Accumulation

section Requests

variable {s : RouterState} {src : Source}

/-- What is asked for one source. -/
def starvationRequest (s : RouterState) (src : Source) (feasible : Bool) : List RouterCall :=
  if !feasible && src.nodeId != s.id then
    [.broadcastRequestSeqno src (nextSeqno s src) s.seqnoRequestHopCount]
  else []

theorem solveStarvation_calls (s : RouterState) : (solveStarvation s).2 =
      (feasibleSources s).entries.flatMap fun entry => starvationRequest s entry.1 entry.2 := by
  simp only [solveStarvation]
  refine (Table.range_append (feasibleSources s) _ [] (fun _ => True)
    (fun calls : List RouterCall => calls) (starvationRequest s) trivial ?_).trans
    (List.nil_append _)
  intro calls src feasible _ _
  refine ⟨?_, trivial⟩
  unfold starvationRequest
  split <;> simp

theorem mem_solveStarvation {seqno : UInt16} {hops : UInt8} :
    .broadcastRequestSeqno src seqno hops ∈ (solveStarvation s).2 ↔
      (src.nodeId ≠ s.id ∧ Starved s src) ∧ seqno = nextSeqno s src ∧
        hops = s.seqnoRequestHopCount := by
  rw [solveStarvation_calls, Table.mem_flatMap_entries (feasibleSources s)]
  unfold starvationRequest
  constructor
  · rintro ⟨source, feasible, hlookup, hcall⟩
    split at hcall
    · next hcond =>
      simp only [Bool.and_eq_true, Bool.not_eq_true', bne_iff_ne] at hcond
      simp only [List.mem_singleton, RouterCall.broadcastRequestSeqno.injEq] at hcall
      obtain ⟨rfl, rfl, rfl⟩ := hcall
      rw [hcond.1] at hlookup
      exact ⟨⟨hcond.2, (lookup_feasibleSources_eq_false s src).mp hlookup⟩, rfl, rfl⟩
    · cases hcall
  · rintro ⟨⟨hother, hstarved⟩, rfl, rfl⟩
    refine ⟨src, false, (lookup_feasibleSources_eq_false s src).mpr hstarved, ?_⟩
    simp [hother]

theorem seqnoLt_succ (seqno : UInt16) : seqnoLt seqno (seqno + 1) = true := by
  have hone : seqno + 1 - seqno = 1 := by
    rw [UInt16.add_comm, UInt16.add_sub_cancel]
  simp only [seqnoLt, hone]
  decide

/-- The request for `src` that an event makes the node originate. A forwarded request is
not originated. -/
def Originates (s : RouterState) (e : Event) (src : Source) (seqno : UInt16) : Prop :=
  match e with
  | .solveStarvation => ∃ hops, .broadcastRequestSeqno src seqno hops ∈ (step s e).2
  | .neighbourUpdate _ _ _ => ∃ nh hops, .requestSeqno nh src seqno hops ∈ (step s e).2
  | _ => False

theorem originates_seqno {e : Event} {seqno : UInt16} (h : Originates s e src seqno) :
    seqno = nextSeqno s src := by
  cases e with
  | solveStarvation =>
    obtain ⟨hops, hcall⟩ := h
    exact (mem_solveStarvation.mp hcall).2.1
  | neighbourUpdate now neigh adv =>
    obtain ⟨nh, hops, hcall⟩ := h
    rcases (handleNeighbourUpdate_cases s now neigh adv).2 _ hcall with ⟨hack, _⟩ | hreq
    · cases hack
    · cases hreq
      rfl
  | _ => cases h

/-- The seqno of the source table, zero for a missing entry as in Go. -/
def sourceSeqno (s : RouterState) (src : Source) : UInt16 :=
  ((s.sources.lookup src).map (·.seqno)).getD 0

/-- An update with the seqno after that of the feasibility distance is feasible. -/
theorem checkFeasibility_of_next {t : RouterState} {adv : PubRoute} {seqno : UInt16}
    (hnext : adv.seqno = seqno + 1)
    (hkept : ∀ fd, t.sources.lookup adv.toSource = some fd → fd.seqno = seqno) :
    checkFeasibility t adv = true := by
  unfold checkFeasibility
  cases hfd : t.sources.lookup adv.toSource with
  | none => rfl
  | some fd =>
    simp [hnext, hkept fd hfd, seqnoLt_succ]

/-- In every state, starvation makes the node ask for exactly the starved sources of
other nodes. A seqno it asks for, there or because of an unfeasible update, makes every
later finite update feasible that carries it and arrives while a feasibility distance of
the source, if there is one, has the seqno it had at the request. -/
theorem starvation_requests_right_and_sufficient (s : RouterState) :
    (∀ src, (∃ seqno hops, .broadcastRequestSeqno src seqno hops ∈ (solveStarvation s).2) ↔
      src.nodeId ≠ s.id ∧ Starved s src) ∧
    ∀ e src seqno, Originates s e src seqno → ∀ later adv,
      adv.toSource = src → adv.seqno = seqno → adv.metric ≠ INF →
      (∀ fd, (run (step s e).1 later).sources.lookup src = some fd → fd.seqno = sourceSeqno s src) →
      checkFeasibility (run (step s e).1 later) adv = true := by
  constructor
  · intro src
    constructor
    · rintro ⟨seqno, hops, hcall⟩
      exact (mem_solveStarvation.mp hcall).1
    · intro h
      exact ⟨_, _, mem_solveStarvation.mpr ⟨h, rfl, rfl⟩⟩
  · intro e src seqno horigin later adv hsource hseqno _ hkept
    subst hsource
    apply checkFeasibility_of_next _ hkept
    rw [hseqno, originates_seqno horigin]
    rfl

/-- Node `a` has announced a route of `o` with the last seqno before the wrap, which its
only neighbour then retracts. -/
def starvedNode : RouterState :=
  run (RouterState.init defaultRouterTunables "a")
    [.reconcileNeighbours ["b"], .setLink "b" true 10,
      .neighbourUpdate 0 "b" ⟨⟨"o", samplePrefix⟩, ⟨0xFFFF, 10⟩⟩, .computeRoutes 0,
      .neighbourUpdate 1 "b" ⟨⟨"o", samplePrefix⟩, ⟨0xFFFF, INF⟩⟩]

/-- The seqno asked for is zero. It is enough for a route that is worse than before. -/
theorem starvation_requests_across_wrap : Starved starvedNode ⟨"o", samplePrefix⟩ ∧
      checkFeasibility starvedNode ⟨⟨"o", samplePrefix⟩, ⟨0xFFFF, 1000⟩⟩ = false ∧
      checkFeasibility starvedNode ⟨⟨"o", samplePrefix⟩, ⟨0, 1000⟩⟩ = true := by
  have hcalls : .broadcastRequestSeqno ⟨"o", samplePrefix⟩ 0 64 ∈
      (solveStarvation starvedNode).2 := by
    decide +kernel
  have hkept : ∀ fd, starvedNode.sources.lookup ⟨"o", samplePrefix⟩ = some fd →
      fd.seqno = sourceSeqno starvedNode ⟨"o", samplePrefix⟩ := by
    intro fd hfd
    simp [sourceSeqno, hfd]
  have hboth := starvation_requests_right_and_sufficient starvedNode
  refine ⟨((hboth.1 _).mp ⟨0, 64, hcalls⟩).2, by decide +kernel, ?_⟩
  exact hboth.2 .solveStarvation ⟨"o", samplePrefix⟩ 0 ⟨64, hcalls⟩ [] _ rfl rfl
    (by decide) hkept

end Requests

end Nylon.Core
