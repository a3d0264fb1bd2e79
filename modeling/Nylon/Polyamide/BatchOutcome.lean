import Nylon.Polyamide.BatchDisposal

/-!
`TCBatch` on its queues does what `Device.tcBatch` says without them: the same calls of
the filters, the same write to the TUN and the same packets for each peer.
-/

namespace Nylon.Polyamide

open Lib

variable {Peer Endpoint Call : Type}

def BatchEffect.calls : BatchEffect Peer Endpoint Call → List Call
  | .call c => [c]
  | _ => []

/-- What the filters have returned for the element. -/
def Processed.result (x : Processed Peer Endpoint Call) (err : Option String) :
    FilterResult Peer Endpoint Call :=
  ⟨x.action, err, x.elem.elem, x.calls⟩

namespace TCState

/-- Elements are added without a look at the error. -/
def addProcessed (tcs : TCState Peer Endpoint) (x : Processed Peer Endpoint Call) :
    TCState Peer Endpoint :=
  tcs.add (x.result none)

theorem priority_foldl_add (xs : List (Processed Peer Endpoint Call))
    (tcs : TCState Peer Endpoint) (p : TCPriority) :
    (xs.foldl addProcessed tcs).priority p = tcs.priority p ++
      ((xs.filterMap Processed.forwards).filter fun e => e.2.elem.priority = p).map
        fun e => (e.1, e.2.elem) := by
  induction xs generalizing tcs with
  | nil => simp
  | cons x rest ih =>
    rw [List.foldl_cons, ih]
    unfold addProcessed add Processed.result Processed.forwards
    cases haction : x.action with
    | pass | drop | bounce => simp [haction]
    | forward =>
      cases hpeer : x.elem.elem.toPeer with
      | none => simp [haction, hpeer]
      | some peer =>
        by_cases hp : p = x.elem.elem.priority
        · subst hp
          simp [haction, hpeer]
        · simp [haction, hpeer, Function.update_of_ne hp, Ne.symm hp]

theorem bouncePkts_foldl_add (xs : List (Processed Peer Endpoint Call))
    (tcs : TCState Peer Endpoint) :
    (xs.foldl addProcessed tcs).bouncePkts = tcs.bouncePkts ++
      (xs.filter fun x => x.action = .bounce).map (·.elem.elem) := by
  induction xs generalizing tcs with
  | nil => simp
  | cons x rest ih =>
    rw [List.foldl_cons, ih]
    unfold addProcessed add Processed.result
    cases haction : x.action with
    | pass | drop | bounce => simp [haction]
    | forward => cases hpeer : x.elem.elem.toPeer <;> simp [haction]

theorem elemsForPeer_foldl_add (xs : List (Processed Peer Endpoint Call))
    (tcs : TCState Peer Endpoint) :
    (xs.foldl addProcessed tcs).elemsForPeer = tcs.elemsForPeer := by
  induction xs generalizing tcs with
  | nil => rfl
  | cons x rest ih =>
    rw [List.foldl_cons, ih]
    unfold addProcessed add
    split <;> rfl

end TCState

/-- Appending the elements one by one gives each peer its own. -/
theorem foldl_update_append [DecidableEq Peer] (l : List (Peer × TCElement Peer Endpoint))
    (elems : Peer → List (TCElement Peer Endpoint)) (peer : Peer) :
    (l.foldl (fun (elems : Peer → List (TCElement Peer Endpoint)) entry =>
        Function.update elems entry.1 (elems entry.1 ++ [entry.2])) elems) peer =
      elems peer ++ (l.filter fun e => e.1 = peer).map Prod.snd := by
  induction l generalizing elems with
  | nil => simp
  | cons e rest ih =>
    rw [List.foldl_cons, ih]
    by_cases heq : e.1 = peer
    · subst heq
      simp
    · simp [heq, Function.update_of_ne (Ne.symm heq)]

/-- The elements of the peers agree. -/
theorem byPeer_foldl_add [DecidableEq Peer] (xs : List (Processed Peer Endpoint Call))
    (peer : Peer) :
    (xs.foldl TCState.addProcessed .new).byPeer peer =
      (TCQueues.elemsFor xs peer).map (·.elem) := by
  have hflat : [TCPriority.max, .high, .medium, .normal].flatMap
        (xs.foldl TCState.addProcessed .new).priority =
      (byPriority (xs.filterMap Processed.forwards)).map fun e => (e.1, e.2.elem) := by
    rw [byPriority, List.map_flatMap]
    refine List.flatMap_congr fun p _ => ?_
    rw [TCState.priority_foldl_add]
    rfl
  rw [TCState.byPeer, hflat, foldl_update_append, TCState.elemsForPeer_foldl_add,
    List.filter_map, List.map_map, TCQueues.elemsFor, List.map_map]
  rfl

section Outcome

variable {env : BatchEnv Peer Endpoint Call} {xs : List (Processed Peer Endpoint Call)}

theorem collect_eq {elem : PooledElement Peer Endpoint} {x : Processed Peer Endpoint Call}
    (h : env.process ⟨elem, env.dev.tcFilters⟩ = .ok x) (tcs : TCState Peer Endpoint)
    (calls : List Call) :
    env.dev.collect (tcs, calls) elem.elem = .ok (tcs.addProcessed x, calls ++ x.calls) := by
  obtain ⟨result, hresult, hx⟩ := bind_eq_ok h
  obtain rfl := Except.ok.inj hx
  have hfilter : env.dev.filterElement elem.elem = .ok result := hresult
  rw [Device.collect, hfilter, Go.ok_bind]
  rfl

theorem foldlM_collect {elems : List (PooledElement Peer Endpoint)}
    (h : List.Forall₂ (fun elem x => env.process ⟨elem, env.dev.tcFilters⟩ = .ok x) elems xs)
    (tcs : TCState Peer Endpoint) (calls : List Call) :
    (elems.map (·.elem)).foldlM env.dev.collect (tcs, calls) =
      .ok (xs.foldl TCState.addProcessed tcs, calls ++ xs.flatMap (·.calls)) := by
  induction h generalizing tcs calls with
  | nil => simp [pure, Except.pure]
  | cons hx _ ih =>
    rw [List.map_cons, List.foldlM_cons, collect_eq hx, Go.ok_bind, ih, List.foldl_cons,
      List.flatMap_cons, List.append_assoc]

variable [DecidableEq Peer]

theorem calls_batchEffects (xs : List (Processed Peer Endpoint Call)) (peers : List Peer) :
    (TCQueues.batchEffects env.dev xs peers).flatMap BatchEffect.calls = xs.flatMap (·.calls) := by
  have heffects : ∀ x : Processed Peer Endpoint Call,
      x.effects.flatMap BatchEffect.calls = x.calls := by
    intro x
    rw [Processed.effects, List.flatMap_append, List.flatMap_map]
    split <;> simp [PooledElement.put, BatchEffect.calls]
  have hstage : ∀ peer, (TCQueues.stageEffects env.dev peer
      (TCQueues.elemsFor xs peer)).flatMap BatchEffect.calls = [] := by
    intro peer
    rw [flatMap_stageEffects]
    split_ifs <;> simp [PooledElement.put, BatchEffect.calls]
  simp only [TCQueues.batchEffects, List.flatMap_append, List.flatMap_assoc, heffects, hstage,
    List.flatMap_map]
  simp [PooledElement.put, BatchEffect.calls, flatMap_nothing]

/-- A batch on queues in which nothing is visible has the outcome that is defined without
them. -/
theorem tcBatch_outcome {elems : List (PooledElement Peer Endpoint)}
    {q : TCQueues Peer Endpoint} (hempty : q.Empty)
    (hreturns : ∀ elem ∈ elems, ∃ r, env.dev.filterElement elem.elem = .ok r) :
    ∃ q' effects outcome, TCQueues.tcBatch env (elems.map fun elem => ⟨elem, env.dev.tcFilters⟩) q =
        .ok (q', effects) ∧
      env.dev.tcBatch (elems.map (·.elem)) .new = .ok (.new, outcome) ∧
      effects.flatMap BatchEffect.calls = outcome.calls ∧
      effects.flatMap BatchEffect.writes = outcome.tunWrite.toList ∧
      ∀ peer, ((effects.flatMap (BatchEffect.stagedFor peer)).flatten.map
        (·.toOutboundElement)) = outcome.staged peer := by
  obtain ⟨xs, hxs⟩ : ∃ xs, List.Forall₂
      (fun elem x => env.process ⟨elem, env.dev.tcFilters⟩ = .ok x) elems xs :=
    exists_forall₂ fun elem helem => (Go.bind_pure_ok_iff _ _).mpr (hreturns elem helem)
  obtain ⟨q', peers, hbatch, -, hnodup, hcover⟩ :=
    TCQueues.tcBatch_eq hempty (List.forall₂_map_left_iff.mpr hxs)
  let tcs := xs.foldl TCState.addProcessed .new
  refine ⟨q', _, ⟨xs.flatMap (·.calls), env.dev.bounce tcs.bouncePkts,
    env.dev.stage tcs.byPeer⟩, hbatch, ?_, calls_batchEffects xs peers, ?_, fun peer => ?_⟩
  · rw [Device.tcBatch, foldlM_collect hxs, Go.ok_bind]
    rfl
  · rw [(disposesOnce_batchEffects hnodup hcover).written, TCState.bouncePkts_foldl_add]
    simp only [env.disposal_written_iff]
    rfl
  · change _ = env.dev.stage tcs.byPeer peer
    rw [stagedFor_batchEffects hnodup hcover, Device.stage, byPeer_foldl_add]
    cases env.dev.isRunning peer with
    | false => simp
    | true =>
      by_cases hnone : TCQueues.elemsFor xs peer = []
      · simp [hnone]
      · simp [hnone, PooledElement.outbound, Function.comp_def]

/-- A device that forwards what has a peer and bounces other packets from a peer. The
peer 3 is not running. -/
def bounceEnv : BatchEnv Nat Nat Unit :=
  let tcfRouted : TCFilter Nat Nat Unit := fun elem =>
    return .of (if elem.toPeer.isSome then .forward else .pass) elem
  ⟨⟨[tcfDrop, tcfBounce, tcfRouted], fun peer => peer != 3, true⟩, .reversed⟩

/-- The element with a given number, for a peer if there is one. -/
def numberedElement (id : Nat) (toPeer : Option Nat) (priority : TCPriority) (l3Proto : UInt16) :
    PooledElement Nat Nat :=
  ⟨id, 10 + id, ⟨⟨[0x50, 0, 1, .ofNat id], []⟩, some 7, some id, some 9, toPeer, priority, l3Proto⟩⟩

def earlierBatch : List (PooledElement Nat Nat) :=
  [numberedElement 0 (some 1) .normal 0, numberedElement 1 none .normal 0,
    numberedElement 2 (some 2) .high 0]

def laterBatch : List (PooledElement Nat Nat) :=
  [numberedElement 3 (some 1) .normal 0, numberedElement 4 none .normal 0x8847,
    numberedElement 5 (some 1) .max 0, numberedElement 6 (some 3) .medium 0,
    numberedElement 7 (some 1) .normal 0]

/-- A batch on the queues that an earlier one has left, with their keys. The element of
the highest priority is the first one for its peer. -/
theorem tcBatch_outcome_reused : ∃ q₀ effects₀ q effects outcome,
    TCQueues.tcBatch bounceEnv (earlierBatch.map fun elem => ⟨elem, bounceEnv.dev.tcFilters⟩)
        .new = .ok (q₀, effects₀) ∧
      q₀.elemsForPeer.keys = [1, 2] ∧
      TCQueues.tcBatch bounceEnv (laterBatch.map fun elem => ⟨elem, bounceEnv.dev.tcFilters⟩)
        q₀ = .ok (q, effects) ∧
      bounceEnv.dev.tcBatch (laterBatch.map (·.elem)) .new = .ok (.new, outcome) ∧
      effects.flatMap BatchEffect.writes = [.writeWithProtos [[0x50, 0, 1, 4]] [0x8847]] ∧
      (effects.flatMap (BatchEffect.stagedFor 1)).flatten.map (·.toOutboundElement) =
        [⟨some 5, [0x50, 0, 1, 5]⟩, ⟨some 3, [0x50, 0, 1, 3]⟩, ⟨some 7, [0x50, 0, 1, 7]⟩] ∧
      (effects.flatMap (BatchEffect.stagedFor 3)).flatten.map (·.toOutboundElement) = [] := by
  have hprocess : ∀ elem, ∃ x, bounceEnv.process ⟨elem, bounceEnv.dev.tcFilters⟩ = .ok x := by
    refine fun elem => bounceEnv.process_returns ?_
    simp [bounceEnv, tcfDrop, tcfBounce, pure, Except.pure]
  obtain ⟨q₀, effects₀, hearlier, hempty, -⟩ := TCQueues.tcBatch_disposes TCQueues.new_empty
    (List.forall_mem_map.mpr fun elem (_ : elem ∈ earlierBatch) => hprocess elem)
  have hkeys : (TCQueues.tcBatch bounceEnv
      (earlierBatch.map fun elem => ⟨elem, bounceEnv.dev.tcFilters⟩) .new).map
        (fun r => r.1.elemsForPeer.keys) = .ok [1, 2] := by
    decide +kernel
  rw [hearlier] at hkeys
  obtain ⟨q, effects, outcome, hlater, hdevice, -, hwrites, hstaged⟩ :=
    tcBatch_outcome hempty fun elem (_ : elem ∈ laterBatch) =>
      (Go.bind_pure_ok_iff _ _).mp (hprocess elem)
  have houtcome : (bounceEnv.dev.tcBatch (laterBatch.map (·.elem)) .new).map
      (fun r => (r.2.tunWrite.toList, r.2.staged 1, r.2.staged 3)) =
      .ok ([.writeWithProtos [[0x50, 0, 1, 4]] [0x8847]],
        [⟨some 5, [0x50, 0, 1, 5]⟩, ⟨some 3, [0x50, 0, 1, 3]⟩, ⟨some 7, [0x50, 0, 1, 7]⟩], []) := by
    decide +kernel
  rw [hdevice] at houtcome
  obtain ⟨htun, hpeers⟩ := Prod.mk.inj (Except.ok.inj houtcome)
  obtain ⟨hfirst, hthird⟩ := Prod.mk.inj hpeers
  exact ⟨q₀, effects₀, q, effects, outcome, hearlier, Except.ok.inj hkeys, hlater, hdevice,
    hwrites.trans htun, (hstaged 1).trans hfirst, (hstaged 3).trans hthird⟩

end Outcome

end Nylon.Polyamide
