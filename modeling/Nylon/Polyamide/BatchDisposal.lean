import Nylon.Polyamide.TrafficLoops

/-!
A batch disposes of each of its elements once: it is dropped, written to the TUN or
staged for its peer, and its buffer goes back to the pool or to an outbound element. This
holds for every batch of a run, since a batch leaves nothing in the queues.
-/

namespace Nylon.Polyamide

open Lib

variable {Peer Endpoint Call : Type}

inductive Disposal (Peer : Type) where
  | dropped
  | written
  | staged (peer : Peer)
  deriving DecidableEq, Repr

def Disposal.isStaged : Disposal Peer → Bool
  | .staged _ => true
  | _ => false

def BatchEnv.disposal (env : BatchEnv Peer Endpoint Call)
    (x : Processed Peer Endpoint Call) : Disposal Peer :=
  match x.action, x.elem.elem.toPeer with
  | .bounce, _ => .written
  | .forward, some peer => if env.dev.isRunning peer then .staged peer else .dropped
  | _, _ => .dropped

def TCPriority.rank : TCPriority → Nat
  | .normal => 0
  | .medium => 1
  | .high => 2
  | .max => 3

/-- The elements rearranged by descending priority, and in their old order within one
priority. -/
structure PriorityOrder (elems ordered : List (PooledElement Peer Endpoint)) : Prop where
  descending : ordered.Pairwise fun a b => b.elem.priority.rank ≤ a.elem.priority.rank
  stable : ∀ p, (ordered.filter fun e => e.elem.priority = p) =
    elems.filter fun e => e.elem.priority = p

namespace BatchEffect

def writes : BatchEffect Peer Endpoint Call → List TunWrite
  | .tunWrite w => [w]
  | _ => []

/-- The containers that are staged for the peer. -/
def stagedFor [DecidableEq Peer] (peer : Peer) :
    BatchEffect Peer Endpoint Call → List (List (StagedElement Endpoint))
  | .stagePackets p elems => if p = peer then [elems] else []
  | _ => []

/-- The message buffers that go back to the pool. -/
def returned : BatchEffect Peer Endpoint Call → List Nat
  | .putMessageBuffer buffer => [buffer]
  | _ => []

/-- The message buffers that outbound elements take over. -/
def handed : BatchEffect Peer Endpoint Call → List Nat
  | .stagePackets _ elems => elems.map (·.buffer)
  | _ => []

/-- The elements that go back to the pool. -/
def freed : BatchEffect Peer Endpoint Call → List Nat
  | .putTCElement id => [id]
  | _ => []

end BatchEffect

/-- The effects of a batch dispose of each of the elements once. -/
structure DisposesOnce [DecidableEq Peer] (env : BatchEnv Peer Endpoint Call)
    (xs : List (Processed Peer Endpoint Call))
    (effects : List (BatchEffect Peer Endpoint Call)) : Prop where
  /-- one write for all that is bounced, in the order of the batch -/
  written : effects.flatMap BatchEffect.writes =
    (env.dev.bounce ((xs.filter fun x => env.disposal x = .written).map (·.elem.elem))).toList
  /-- one container for each peer that anything is staged for -/
  staged : ∀ peer, ∃ ordered,
    PriorityOrder ((xs.filter fun x => env.disposal x = .staged peer).map (·.elem)) ordered ∧
      effects.flatMap (BatchEffect.stagedFor peer) =
        if ordered = [] then [] else [ordered.map PooledElement.outbound]
  returned : (effects.flatMap BatchEffect.returned).Perm
    ((xs.filter fun x => !(env.disposal x).isStaged).map (·.elem.buffer))
  handed : (effects.flatMap BatchEffect.handed).Perm
    ((xs.filter fun x => (env.disposal x).isStaged).map (·.elem.buffer))
  freed : (effects.flatMap BatchEffect.freed).Perm (xs.map (·.elem.id))

theorem filter_priority_byPriority (l : List (Peer × PooledElement Peer Endpoint))
    (p : TCPriority) :
    ((byPriority l).filter fun e => e.2.elem.priority = p) =
      l.filter fun e => e.2.elem.priority = p := by
  have hother : ∀ {p'}, p' ≠ p → ((l.filter fun e => e.2.elem.priority = p').filter
      fun e => e.2.elem.priority = p) = [] := by
    intro p' hne
    rw [List.filter_filter, List.filter_eq_nil_iff]
    intro e _
    rw [Bool.and_eq_true, decide_eq_true_iff, decide_eq_true_iff]
    exact fun h => hne (h.2.symm.trans h.1)
  simp only [byPriority, List.flatMap_cons, List.flatMap_nil, List.filter_append]
  cases p <;> simp [hother]

theorem byPriority_descending (l : List (Peer × PooledElement Peer Endpoint)) :
    (byPriority l).Pairwise fun a b => b.2.elem.priority.rank ≤ a.2.elem.priority.rank := by
  have hmem : ∀ {p e}, (e ∈ l.filter fun e => e.2.elem.priority = p) →
      e.2.elem.priority = p := fun h => by simpa using (List.mem_filter.mp h).2
  rw [byPriority, List.pairwise_flatMap]
  refine ⟨fun p _ => ?_, ?_⟩
  · rw [List.pairwise_iff_forall_sublist]
    intro a b hab
    have ha := hmem (hab.subset List.mem_cons_self)
    have hb := hmem (hab.subset (List.mem_cons_of_mem _ List.mem_cons_self))
    rw [ha, hb]
  · have hranks : [TCPriority.max, .high, .medium, .normal].Pairwise
        fun p p' => p'.rank ≤ p.rank := by decide
    refine hranks.imp fun {p p'} hle a ha b hb => ?_
    rw [hmem ha, hmem hb]
    exact hle

/-- The elements of one peer are in order. -/
theorem priorityOrder_byPriority [DecidableEq Peer]
    (l : List (Peer × PooledElement Peer Endpoint)) (peer : Peer) :
    PriorityOrder ((l.filter fun e => e.1 = peer).map Prod.snd)
      (((byPriority l).filter fun e => e.1 = peer).map Prod.snd) where
  descending := ((byPriority_descending l).filter _).map _ fun _ _ h => h
  stable p := by
    rw [List.filter_map, List.filter_map, List.filter_filter, List.filter_filter]
    simp only [Function.comp_apply, Bool.and_comm (decide (_ = p))]
    rw [← List.filter_filter, ← List.filter_filter, filter_priority_byPriority]

section Effects

open BatchEffect

theorem flatMap_calls {γ : Type} (g : BatchEffect Peer Endpoint Call → List γ)
    (hg : ∀ c, g (.call c) = []) (calls : List Call) : (calls.map .call).flatMap g = [] := by
  rw [List.flatMap_map, List.flatMap_eq_nil_iff]
  exact fun c _ => hg c

theorem flatMap_effects {γ : Type} (g : BatchEffect Peer Endpoint Call → List γ)
    (hg : ∀ c, g (.call c) = []) (x : Processed Peer Endpoint Call) :
    x.effects.flatMap g = if x.releases then x.elem.put.flatMap g else [] := by
  rw [Processed.effects, List.flatMap_append, flatMap_calls g hg, List.nil_append]
  split <;> rfl

/-- What a projection sees of a batch. -/
theorem flatMap_batchEffects [DecidableEq Peer] {γ : Type}
    (g : BatchEffect Peer Endpoint Call → List γ) (hg : ∀ c, g (.call c) = [])
    (dev : Device Peer Endpoint Call) (xs : List (Processed Peer Endpoint Call))
    (peers : List Peer) :
    (TCQueues.batchEffects dev xs peers).flatMap g =
      ((xs.filter Processed.releases).flatMap fun x => x.elem.put.flatMap g) ++
        ((dev.bounce ((xs.filter fun x => x.action = .bounce).map (·.elem.elem))).toList.flatMap
            (fun w => g (.tunWrite w)) ++
          (xs.filter fun x => x.action = .bounce).flatMap fun x => x.elem.put.flatMap g) ++
        peers.flatMap fun peer =>
          (TCQueues.stageEffects dev peer (TCQueues.elemsFor xs peer)).flatMap g := by
  have hfirst : (xs.flatMap Processed.effects).flatMap g =
      (xs.filter Processed.releases).flatMap fun x => x.elem.put.flatMap g := by
    rw [List.flatMap_assoc]
    induction xs with
    | nil => rfl
    | cons x rest ih =>
      rw [List.flatMap_cons, ih, flatMap_effects g hg, List.filter_cons]
      split <;> rfl
  simp only [TCQueues.batchEffects, List.flatMap_append, hfirst, List.flatMap_map,
    List.flatMap_assoc, List.map_map, Function.comp_def]

variable (dev : Device Peer Endpoint Call) (peer : Peer)
  (elems : List (PooledElement Peer Endpoint))

theorem flatMap_stageEffects {γ : Type} (g : BatchEffect Peer Endpoint Call → List γ) :
    (TCQueues.stageEffects dev peer elems).flatMap g =
      if elems = [] then []
      else if dev.isRunning peer then
        elems.flatMap (fun elem => g (.putTCElement elem.id)) ++
          (g (.stagePackets peer (elems.map PooledElement.outbound)) ++ g (.sendStagedPackets peer))
      else elems.flatMap fun elem => elem.put.flatMap g := by
  unfold TCQueues.stageEffects TCQueues.stagePeer
  split_ifs
  · rfl
  · simp [List.flatMap_map]
  · rw [List.flatMap_assoc]

theorem writes_stageEffects : (TCQueues.stageEffects dev peer elems).flatMap writes = [] := by
  rw [flatMap_stageEffects]
  split_ifs <;> simp [PooledElement.put, writes]

theorem stagedFor_stageEffects [DecidableEq Peer] (other : Peer) :
    (TCQueues.stageEffects dev peer elems).flatMap (stagedFor other) =
      if peer = other ∧ dev.isRunning peer = true ∧ elems ≠ [] then
        [elems.map PooledElement.outbound] else [] := by
  rw [flatMap_stageEffects]
  by_cases helems : elems = []
  · simp [helems]
  · by_cases hrunning : dev.isRunning peer = true
    · simp [helems, hrunning, stagedFor]
    · simp [helems, hrunning, stagedFor, PooledElement.put]

theorem returned_stageEffects : (TCQueues.stageEffects dev peer elems).flatMap returned =
      if !dev.isRunning peer then elems.map (·.buffer) else [] := by
  rw [flatMap_stageEffects]
  by_cases helems : elems = []
  · simp [helems]
  · by_cases hrunning : dev.isRunning peer = true
    · simp [helems, hrunning, returned]
    · simp [helems, hrunning, returned, PooledElement.put, List.map_eq_flatMap]

theorem handed_stageEffects : (TCQueues.stageEffects dev peer elems).flatMap handed =
      if dev.isRunning peer then elems.map (·.buffer) else [] := by
  rw [flatMap_stageEffects]
  by_cases helems : elems = []
  · simp [helems]
  · by_cases hrunning : dev.isRunning peer = true
    · simp [helems, hrunning, handed, flatMap_nothing, Function.comp_def, PooledElement.outbound]
    · simp [helems, hrunning, handed, PooledElement.put]

theorem freed_stageEffects :
    (TCQueues.stageEffects dev peer elems).flatMap freed = elems.map (·.id) := by
  rw [flatMap_stageEffects]
  by_cases helems : elems = []
  · simp [helems]
  · by_cases hrunning : dev.isRunning peer = true
    · simp [helems, hrunning, freed, List.map_eq_flatMap]
    · simp [helems, hrunning, freed, PooledElement.put, List.map_eq_flatMap]

end Effects

section Partition

variable [DecidableEq Peer] {xs : List (Processed Peer Endpoint Call)} {peers : List Peer}

/-- What the peers with the property contribute, whatever their order. -/
theorem flatMap_elemsFor_perm (hnodup : peers.Nodup)
    (hcover : ∀ e ∈ xs.filterMap Processed.forwards, e.1 ∈ peers) (P : Peer → Bool)
    (f : PooledElement Peer Endpoint → Nat) :
    (peers.flatMap fun peer => if P peer then (TCQueues.elemsFor xs peer).map f else []).Perm
      (((xs.filterMap Processed.forwards).filter fun e => P e.1).map fun e => f e.2) := by
  have hperm : ((byPriority (xs.filterMap Processed.forwards)).filter fun e => P e.1).Perm
      ((xs.filterMap Processed.forwards).filter fun e => P e.1) := (byPriority_perm _).filter _
  have hkeys := flatMap_filter_perm hnodup Prod.fst fun e he =>
    hcover e (List.mem_filter.mp (hperm.mem_iff.mp he)).1
  refine List.Perm.trans ?_ ((hkeys.trans hperm).map fun e => f e.2)
  rw [List.map_flatMap]
  refine List.Perm.of_eq (List.flatMap_congr fun peer _ => ?_)
  rw [List.filter_filter, TCQueues.elemsFor, List.map_map]
  by_cases hP : P peer = true
  · rw [if_pos hP]
    refine congrArg _ (List.filter_congr fun e _ => ?_)
    by_cases heq : e.1 = peer
    · simp [heq, hP]
    · simp [heq]
  · rw [if_neg hP, eq_comm, List.map_eq_nil_iff, List.filter_eq_nil_iff]
    intro e _
    by_cases heq : e.1 = peer
    · simp [heq, hP]
    · simp [heq]

omit [DecidableEq Peer] in
/-- An element is put back by the first loop, bounced or forwarded. -/
theorem Processed.trichotomy (x : Processed Peer Endpoint Call) :
    (x.releases = true ∧ x.action ≠ .bounce ∧ x.forwards = none) ∨
      (x.releases = false ∧ x.action = .bounce ∧ x.forwards = none) ∨
      ∃ peer, x.releases = false ∧ x.action ≠ .bounce ∧ x.forwards = some (peer, x.elem) := by
  unfold Processed.releases Processed.forwards
  cases haction : x.action with
  | pass | drop => exact .inl ⟨rfl, TCAction.noConfusion, rfl⟩
  | bounce => exact .inr (.inl ⟨rfl, rfl, rfl⟩)
  | forward =>
    cases x.elem.elem.toPeer with
    | none => exact .inl ⟨rfl, TCAction.noConfusion, rfl⟩
    | some peer => exact .inr (.inr ⟨peer, rfl, TCAction.noConfusion, rfl⟩)

omit [DecidableEq Peer] in
/-- The elements that are kept, by what the loops do with them. -/
theorem map_filter_perm {keep : Processed Peer Endpoint Call → Bool} {P : Peer → Bool}
    (hreleases : ∀ x, x.releases = true → keep x = true)
    (hbounce : ∀ x, x.action = .bounce → keep x = true)
    (hforwards : ∀ x e, x.forwards = some e → keep x = P e.1)
    (f : PooledElement Peer Endpoint → Nat) :
    ((xs.filter keep).map fun x => f x.elem).Perm
      ((xs.filter Processed.releases).map (fun x => f x.elem) ++
        (xs.filter fun x => x.action = .bounce).map (fun x => f x.elem) ++
        ((xs.filterMap Processed.forwards).filter fun e => P e.1).map fun e => f e.2) := by
  induction xs with
  | nil => exact List.Perm.refl _
  | cons x rest ih =>
    rcases x.trichotomy with ⟨hrel, hnot, hnone⟩ | ⟨hnot, hact, hnone⟩ | ⟨peer, hrel, hnot, hsome⟩
    · simpa [List.filter_cons, List.filterMap_cons, hrel, hnot, hnone, hreleases x hrel] using ih
    · simp only [List.filter_cons, List.filterMap_cons, hnot, hact, hnone, hbounce x hact]
      rw [List.append_assoc] at ih
      simpa using (ih.cons (f x.elem)).trans List.perm_middle.symm
    · have hkeep := hforwards x _ hsome
      cases hP : P peer with
      | true =>
        rw [hP] at hkeep
        simp only [List.filter_cons, List.filterMap_cons, hrel, hnot, hsome, hkeep, hP]
        simpa using (ih.cons (f x.elem)).trans List.perm_middle.symm
      | false =>
        rw [hP] at hkeep
        simpa [List.filter_cons, List.filterMap_cons, hrel, hnot, hsome, hkeep, hP] using ih

omit [DecidableEq Peer] in
/-- If only forwarded elements are kept, they stay in order. -/
theorem map_filter_forwarded {keep : Processed Peer Endpoint Call → Bool} {P : Peer → Bool}
    (hnone : ∀ x, x.forwards = none → keep x = false)
    (hforwards : ∀ x e, x.forwards = some e → keep x = P e.1) :
    (xs.filter keep).map (·.elem) =
      ((xs.filterMap Processed.forwards).filter fun e => P e.1).map Prod.snd := by
  induction xs with
  | nil => rfl
  | cons x rest ih =>
    rcases x.trichotomy with ⟨-, -, hx⟩ | ⟨-, -, hx⟩ | ⟨peer, -, -, hx⟩
    · simpa [hx, hnone x hx] using ih
    · simpa [hx, hnone x hx] using ih
    · have hkeep := hforwards x _ hx
      cases hP : P peer <;> rw [hP] at hkeep <;> simpa [hx, hkeep, hP] using ih

end Partition

section Disposes

variable {env : BatchEnv Peer Endpoint Call} {x : Processed Peer Endpoint Call}

theorem BatchEnv.disposal_of_releases (h : x.releases = true) : env.disposal x = .dropped := by
  unfold Processed.releases at h
  unfold BatchEnv.disposal
  cases haction : x.action with
  | pass | drop => rfl
  | bounce => simp [haction] at h
  | forward =>
    cases hpeer : x.elem.elem.toPeer with
    | none => rfl
    | some peer => simp [haction, hpeer] at h

theorem BatchEnv.disposal_of_bounce (h : x.action = .bounce) : env.disposal x = .written := by
  simp [BatchEnv.disposal, h]

theorem BatchEnv.disposal_of_forwards
    {e : Peer × PooledElement Peer Endpoint} (h : x.forwards = some e) :
    env.disposal x = if env.dev.isRunning e.1 then .staged e.1 else .dropped := by
  unfold Processed.forwards at h
  unfold BatchEnv.disposal
  cases haction : x.action with
  | pass | drop | bounce => simp [haction] at h
  | forward =>
    cases hpeer : x.elem.elem.toPeer with
    | none => simp [haction, hpeer] at h
    | some peer =>
      simp only [haction, hpeer, Option.some.injEq] at h
      rw [← h]

theorem BatchEnv.disposal_written_iff (x : Processed Peer Endpoint Call) :
    env.disposal x = .written ↔ x.action = .bounce := by
  rcases x.trichotomy with ⟨hrel, hnot, -⟩ | ⟨-, hact, -⟩ | ⟨peer, -, hnot, hsome⟩
  · simp [env.disposal_of_releases hrel, hnot]
  · simp [env.disposal_of_bounce hact, hact]
  · rw [env.disposal_of_forwards hsome]
    split <;> simp [hnot]

theorem BatchEnv.disposal_of_not_forwards
    (h : x.forwards = none) : (env.disposal x).isStaged = false := by
  rcases x.trichotomy with ⟨hrel, -, -⟩ | ⟨-, hact, -⟩ | ⟨peer, -, -, hsome⟩
  · rw [env.disposal_of_releases hrel]
    rfl
  · rw [env.disposal_of_bounce hact]
    rfl
  · rw [hsome] at h
    cases h

theorem BatchEnv.map_filter_staged [DecidableEq Peer]
    (xs : List (Processed Peer Endpoint Call)) (peer : Peer) :
    (xs.filter fun x => env.disposal x = .staged peer).map (·.elem) =
      if env.dev.isRunning peer then
        ((xs.filterMap Processed.forwards).filter fun e => e.1 = peer).map Prod.snd
      else [] := by
  rw [map_filter_forwarded (P := fun p => env.dev.isRunning p && decide (p = peer))]
  · cases hrunning : env.dev.isRunning peer with
    | true =>
      rw [if_pos rfl]
      refine congrArg _ (List.filter_congr fun e _ => ?_)
      by_cases heq : e.1 = peer
      · simp [heq, hrunning]
      · simp [heq]
    | false =>
      rw [if_neg Bool.false_ne_true, List.map_eq_nil_iff, List.filter_eq_nil_iff]
      intro e _
      by_cases heq : e.1 = peer
      · simp [heq, hrunning]
      · simp [heq]
  · intro x hnone
    have hnot := env.disposal_of_not_forwards hnone
    rw [decide_eq_false_iff_not]
    intro hstaged
    rw [hstaged] at hnot
    cases hnot
  · intro x e hsome
    rw [env.disposal_of_forwards hsome]
    cases env.dev.isRunning e.1 <;> simp

variable [DecidableEq Peer] {xs : List (Processed Peer Endpoint Call)} {peers : List Peer}

theorem stagedFor_batchEffects (hnodup : peers.Nodup)
    (hcover : ∀ e ∈ xs.filterMap Processed.forwards, e.1 ∈ peers) (peer : Peer) :
    (TCQueues.batchEffects env.dev xs peers).flatMap (BatchEffect.stagedFor peer) =
      if env.dev.isRunning peer = true ∧ TCQueues.elemsFor xs peer ≠ [] then
        [(TCQueues.elemsFor xs peer).map PooledElement.outbound] else [] := by
  have hput : ∀ elem : PooledElement Peer Endpoint,
      (elem.put : List (BatchEffect Peer Endpoint Call)).flatMap
        (BatchEffect.stagedFor peer) = [] := fun _ => rfl
  have habsent : peer ∉ peers → TCQueues.elemsFor xs peer = [] := by
    intro hnot
    rw [TCQueues.elemsFor, List.map_eq_nil_iff, List.filter_eq_nil_iff]
    intro e he
    rw [decide_eq_true_iff]
    rintro rfl
    exact hnot (hcover e ((byPriority_perm _).mem_iff.mp he))
  rw [flatMap_batchEffects _ fun _ => rfl]
  simp only [stagedFor_stageEffects, hput, BatchEffect.stagedFor]
  rw [flatMap_of_single hnodup _ peer]
  · simp [flatMap_nothing]
  · intro k _ hne
    simp [hne]
  · intro hnot
    simp [habsent hnot]

/-- The effects of a batch dispose of its elements, in whatever order the peers are
walked. -/
theorem disposesOnce_batchEffects (hnodup : peers.Nodup)
    (hcover : ∀ e ∈ xs.filterMap Processed.forwards, e.1 ∈ peers) :
    DisposesOnce env xs (TCQueues.batchEffects env.dev xs peers) where
  written := by
    rw [flatMap_batchEffects _ fun _ => rfl]
    simp only [writes_stageEffects, env.disposal_written_iff]
    simp [PooledElement.put, BatchEffect.writes, flatMap_nothing]
  staged peer := by
    rw [stagedFor_batchEffects hnodup hcover, env.map_filter_staged]
    cases hrunning : env.dev.isRunning peer with
    | true =>
      refine ⟨TCQueues.elemsFor xs peer, priorityOrder_byPriority _ peer, ?_⟩
      by_cases hnone : TCQueues.elemsFor xs peer = [] <;> simp [hnone]
    | false => exact ⟨[], ⟨List.Pairwise.nil, fun _ => rfl⟩, by simp⟩
  returned := by
    rw [flatMap_batchEffects _ fun _ => rfl]
    simp only [returned_stageEffects]
    refine List.Perm.symm ((map_filter_perm (P := fun peer => !env.dev.isRunning peer)
      ?_ ?_ ?_ _).trans ?_)
    · intro x hrel
      rw [env.disposal_of_releases hrel]
      rfl
    · intro x hact
      rw [env.disposal_of_bounce hact]
      rfl
    · intro x e hsome
      rw [env.disposal_of_forwards hsome]
      cases env.dev.isRunning e.1 <;> rfl
    · refine List.Perm.append ?_ (flatMap_elemsFor_perm hnodup hcover (fun peer => !env.dev.isRunning peer) _).symm
      simp [PooledElement.put, BatchEffect.returned, flatMap_nothing, List.map_eq_flatMap]
  handed := by
    have hstaged : (xs.filter fun x => (env.disposal x).isStaged).map (·.elem) =
        ((xs.filterMap Processed.forwards).filter fun e => env.dev.isRunning e.1).map
          Prod.snd := by
      refine map_filter_forwarded (fun x => env.disposal_of_not_forwards) fun x e hsome => ?_
      rw [env.disposal_of_forwards hsome]
      cases env.dev.isRunning e.1 <;> rfl
    have hloop := flatMap_elemsFor_perm hnodup hcover env.dev.isRunning (·.buffer)
    have hbuffers := congrArg (List.map fun e : PooledElement Peer Endpoint => e.buffer) hstaged
    rw [List.map_map, List.map_map] at hbuffers
    refine List.Perm.trans ?_ (List.Perm.of_eq hbuffers.symm)
    rw [flatMap_batchEffects _ fun _ => rfl]
    simp only [handed_stageEffects]
    simpa [PooledElement.put, BatchEffect.handed, flatMap_nothing, Function.comp_def] using hloop
  freed := by
    have hall := @map_filter_perm _ _ _ xs (fun _ => true) (fun _ => true) (fun _ _ => rfl)
      (fun _ _ => rfl) (fun _ _ _ => rfl) (·.id)
    have hloop := flatMap_elemsFor_perm hnodup hcover (fun _ => true) (·.id)
    rw [List.filter_true] at hall
    rw [flatMap_batchEffects _ fun _ => rfl]
    simp only [freed_stageEffects]
    refine List.Perm.symm (hall.trans (List.Perm.append ?_ hloop.symm))
    simp [PooledElement.put, BatchEffect.freed, flatMap_nothing, List.map_eq_flatMap]

end Disposes

section Runs

variable [DecidableEq Peer]

theorem TCQueues.new_empty : (TCQueues.new : TCQueues Peer Endpoint).Empty :=
  ⟨fun _ => rfl, rfl, rfl, rfl, fun peer s hs => by simp [TCQueues.new] at hs⟩

/-- One batch, from queues in which nothing is visible. -/
theorem TCQueues.tcBatch_disposes {env : BatchEnv Peer Endpoint Call}
    {turns : List (Turn Peer Endpoint Call)} {q : TCQueues Peer Endpoint} (hempty : q.Empty)
    (hreturns : ∀ turn ∈ turns, ∃ x, env.process turn = .ok x) :
    ∃ q' effects, TCQueues.tcBatch env turns q = .ok (q', effects) ∧ q'.Empty ∧
      ∃ xs, List.Forall₂ (fun turn x => env.process turn = .ok x) turns xs ∧
        DisposesOnce env xs effects := by
  obtain ⟨xs, hxs⟩ := exists_forall₂ hreturns
  obtain ⟨q', peers, hbatch, hempty', hnodup, hcover⟩ := TCQueues.tcBatch_eq hempty hxs
  exact ⟨q', _, hbatch, hempty', xs, hxs, disposesOnce_batchEffects hnodup hcover⟩

theorem TCQueues.tcBatches_disposes
    {batches : List (BatchEnv Peer Endpoint Call × List (Turn Peer Endpoint Call))}
    {q : TCQueues Peer Endpoint} (hempty : q.Empty)
    (hreturns : ∀ batch ∈ batches, ∀ turn ∈ batch.2, ∃ x, batch.1.process turn = .ok x) :
    ∃ q' logs, TCQueues.tcBatches batches q = .ok (q', logs) ∧ q'.Empty ∧
      List.Forall₂ (fun batch effects =>
        ∃ xs, List.Forall₂ (fun turn x => batch.1.process turn = .ok x) batch.2 xs ∧
          DisposesOnce batch.1 xs effects) batches logs := by
  induction batches generalizing q with
  | nil => exact ⟨q, [], rfl, hempty, .nil⟩
  | cons batch rest ih =>
    obtain ⟨hbatch, hrest⟩ := List.forall_mem_cons.mp hreturns
    obtain ⟨q₁, effects, hrun, hempty₁, hdisposes⟩ := TCQueues.tcBatch_disposes hempty hbatch
    obtain ⟨q₂, logs, hruns, hempty₂, hall⟩ := ih hempty₁ hrest
    refine ⟨q₂, effects :: logs, ?_, hempty₂, .cons hdisposes hall⟩
    unfold TCQueues.tcBatches
    rw [hrun, Go.ok_bind]
    dsimp only
    rw [hruns]
    rfl

omit [DecidableEq Peer] in
/-- Filters that always return let the batch go on. -/
theorem BatchEnv.process_returns (env : BatchEnv Peer Endpoint Call)
    {turn : Turn Peer Endpoint Call}
    (hfilters : ∀ filter ∈ turn.filters, ∀ elem, ∃ result, filter elem = .ok result) :
    ∃ x, env.process turn = .ok x := by
  have hkeeps : ∀ filter ∈ turn.filters.reverse, Keeps (fun _ => True) filter := by
    intro filter hfilter elem _
    obtain ⟨result, hresult⟩ := hfilters filter (List.mem_reverse.mp hfilter) elem
    exact ⟨result, hresult, fun _ _ => trivial⟩
  refine (Go.bind_pure_ok_iff _ _).mpr ?_
  obtain ⟨⟨parsed, packet⟩, hparse⟩ := Packet.parsePacket_ok turn.elem.elem.packet
  unfold Device.filterElement
  rw [hparse, Go.ok_bind]
  dsimp only
  rw [Packet.validate_eq, Go.ok_bind]
  split_ifs
  · exact ⟨_, rfl⟩
  · exact ⟨_, rfl⟩
  · exact (Go.bind_pure_ok_iff _ _).mpr (runFilters_ok hkeeps trivial)

/-- In a run over any number of batches that share their queues, each batch disposes of
each of its elements once, and nothing is left for the next one. -/
theorem tcBatches_dispose_once
    (batches : List (BatchEnv Peer Endpoint Call × List (Turn Peer Endpoint Call)))
    (hreturns : ∀ batch ∈ batches, ∀ turn ∈ batch.2, ∃ x, batch.1.process turn = .ok x) :
    ∃ q logs, TCQueues.tcBatches batches .new = .ok (q, logs) ∧ q.Empty ∧
      List.Forall₂ (fun batch effects =>
        ∃ xs, List.Forall₂ (fun turn x => batch.1.process turn = .ok x) batch.2 xs ∧
          DisposesOnce batch.1 xs effects) batches logs :=
  TCQueues.tcBatches_disposes TCQueues.new_empty hreturns

/-- Two elements for the peer 1, one that is bounced, and in the next batch one for the
peer 2, which is not running. -/
def twoBatches : List (BatchEnv Nat Nat Unit × List (Turn Nat Nat Unit)) :=
  let packet : Packet := ⟨[0x50, 0, 0], []⟩
  let env : BatchEnv Nat Nat Unit := ⟨⟨[], fun peer => peer == 1, false⟩, .stored⟩
  let forward : TCFilter Nat Nat Unit := fun elem => return .of .forward elem
  [(env, [⟨⟨0, 10, ⟨packet, none, none, none, some 1, .normal, 0⟩⟩, [forward]⟩,
      ⟨⟨1, 11, ⟨packet, none, none, some 2, none, .normal, 0⟩⟩, [tcfDrop, tcfBounce]⟩,
      ⟨⟨2, 12, ⟨packet, none, none, none, some 1, .high, 0⟩⟩, [forward]⟩]),
    (env, [⟨⟨3, 13, ⟨packet, none, none, none, some 2, .max, 0⟩⟩, [forward]⟩])]

theorem tcBatches_dispose_once_two :
    ∃ q logs, TCQueues.tcBatches twoBatches .new = .ok (q, logs) ∧ q.Empty ∧
      List.Forall₂ (fun batch effects =>
        ∃ xs, List.Forall₂ (fun turn x => batch.1.process turn = .ok x) batch.2 xs ∧
          DisposesOnce batch.1 xs effects) twoBatches logs := by
  refine tcBatches_dispose_once twoBatches fun batch hbatch turn hturn =>
    batch.1.process_returns ?_
  have hfilters : ∀ batch ∈ twoBatches, ∀ turn ∈ batch.2, ∀ filter ∈ turn.filters,
      ∀ elem, ∃ result, filter elem = .ok result := by
    simp [twoBatches, tcfDrop, tcfBounce, pure, Except.pure]
  exact hfilters batch hbatch turn hturn

example : (TCQueues.tcBatches twoBatches .new).map Prod.snd = .ok
    [[.tunWrite (.write [[0x50, 0, 0]]), .putMessageBuffer 11, .putTCElement 1,
        .putTCElement 2, .putTCElement 0,
        .stagePackets 1 [⟨⟨none, [0x50, 0, 0]⟩, 12⟩, ⟨⟨none, [0x50, 0, 0]⟩, 10⟩],
        .sendStagedPackets 1],
      [.putMessageBuffer 13, .putTCElement 3]] := by
  decide +kernel

end Runs

end Nylon.Polyamide
