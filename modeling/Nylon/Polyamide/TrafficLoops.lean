import Nylon.Lib.Proc
import Nylon.Polyamide.TrafficQueues

/-!
The four loops of `TCBatch`, one after the other, from queues in which nothing is
visible. What each of them leaves behind is a function of the list of the filtered
elements and, for the last one, of the order of the peers.
-/

namespace Nylon.Polyamide

open Lib

variable {Peer Endpoint Call : Type}

/-- The peer that the element goes to, if it is forwarded. -/
def Processed.forwards (x : Processed Peer Endpoint Call) :
    Option (Peer × PooledElement Peer Endpoint) :=
  match x.action, x.elem.elem.toPeer with
  | .forward, some peer => some (peer, x.elem)
  | _, _ => none

/-- The element is put back by the first loop. -/
def Processed.releases (x : Processed Peer Endpoint Call) : Bool :=
  match x.action, x.elem.elem.toPeer with
  | .bounce, _ => false
  | .forward, some _ => false
  | _, _ => true

def Processed.effects (x : Processed Peer Endpoint Call) : List (BatchEffect Peer Endpoint Call) :=
  x.calls.map .call ++ if x.releases then x.elem.put else []

/-- The first loop as a function of the filtered elements. -/
def TCQueues.enqueue (q : TCQueues Peer Endpoint) (x : Processed Peer Endpoint Call) :
    TCQueues Peer Endpoint :=
  match x.action, x.elem.elem.toPeer with
  | .bounce, _ => q.pushBounce x.elem
  | .forward, some peer => q.pushPriority peer x.elem
  | _, _ => q

/-- The filters let no element pass in the end. -/
theorem BatchEnv.process_ne_pass {env : BatchEnv Peer Endpoint Call}
    {turn : Turn Peer Endpoint Call} {x : Processed Peer Endpoint Call}
    (h : env.process turn = .ok x) : x.action ≠ .pass := by
  obtain ⟨result, hresult, hx⟩ := bind_eq_ok h
  obtain rfl := Except.ok.inj hx
  unfold Device.filterElement at hresult
  obtain ⟨⟨parsed, packet⟩, -, hresult⟩ := bind_eq_ok hresult
  dsimp only at hresult
  split_ifs at hresult
  · obtain rfl := Except.ok.inj hresult
    exact TCAction.noConfusion
  · obtain ⟨valid, -, hresult⟩ := bind_eq_ok hresult
    split_ifs at hresult
    · obtain rfl := Except.ok.inj hresult
      exact TCAction.noConfusion
    · obtain ⟨filtered, -, hresult⟩ := bind_eq_ok hresult
      obtain rfl := Except.ok.inj hresult
      by_cases hpass : filtered.action = .pass
      · rw [if_pos hpass]
        exact TCAction.noConfusion
      · rwa [if_neg hpass]

/-- The forwarded elements in the order in which they are given to the peers. -/
def byPriority (l : List (Peer × PooledElement Peer Endpoint)) :
    List (Peer × PooledElement Peer Endpoint) :=
  [TCPriority.max, .high, .medium, .normal].flatMap fun p =>
    l.filter fun e => e.2.elem.priority = p

theorem byPriority_perm (l : List (Peer × PooledElement Peer Endpoint)) :
    (byPriority l).Perm l := by
  have hall : ∀ p, p ∈ [TCPriority.max, .high, .medium, .normal] := by
    intro p
    cases p <;> decide
  exact flatMap_filter_perm (by decide)
    (fun e : Peer × PooledElement Peer Endpoint => e.2.elem.priority) fun e _ => hall _

namespace TCQueues

section Dispatch

variable {q : TCQueues Peer Endpoint} {x : Processed Peer Endpoint Call}

theorem add_eq (h : x.action ≠ .pass) :
    q.add x = .ok (q.enqueue x, if x.releases then x.elem.put else []) := by
  unfold add enqueue Processed.releases
  cases haction : x.action with
  | pass => exact absurd haction h
  | bounce => rfl
  | drop => rfl
  | forward =>
    cases x.elem.elem.toPeer with
    | none => rfl
    | some peer => rfl

theorem dispatch_eq {env : BatchEnv Peer Endpoint Call} {turn : Turn Peer Endpoint Call}
    (h : env.process turn = .ok x) (effects : List (BatchEffect Peer Endpoint Call)) :
    dispatch env (q, effects) turn = .ok (q.enqueue x, effects ++ x.effects) := by
  unfold dispatch
  rw [h, Go.ok_bind, add_eq (env.process_ne_pass h), Go.ok_bind, Processed.effects,
    ← List.append_assoc]
  rfl

theorem foldlM_dispatch {env : BatchEnv Peer Endpoint Call}
    {turns : List (Turn Peer Endpoint Call)} {xs : List (Processed Peer Endpoint Call)}
    (h : List.Forall₂ (fun turn x => env.process turn = .ok x) turns xs)
    (effects : List (BatchEffect Peer Endpoint Call)) :
    turns.foldlM (dispatch env) (q, effects) =
      .ok (xs.foldl enqueue q, effects ++ xs.flatMap Processed.effects) := by
  induction h generalizing q effects with
  | nil => simp [pure, Except.pure]
  | cons hturn _ ih =>
    rw [List.foldlM_cons, dispatch_eq hturn, Go.ok_bind, ih, List.foldl_cons,
      List.flatMap_cons, List.append_assoc]

/-- The elements of a priority, after the first loop. -/
theorem priority_foldl_enqueue (xs : List (Processed Peer Endpoint Call)) (p : TCPriority) :
    ((xs.foldl enqueue q).priority p).data = (q.priority p).data ++
      ((xs.filterMap Processed.forwards).filter fun e => e.2.elem.priority = p).map some := by
  induction xs generalizing q with
  | nil => simp
  | cons x rest ih =>
    rw [List.foldl_cons, ih]
    unfold enqueue Processed.forwards
    cases haction : x.action with
    | pass | drop | bounce => simp [haction, pushBounce]
    | forward =>
      cases hpeer : x.elem.elem.toPeer with
      | none => simp [haction, hpeer]
      | some peer =>
        by_cases hp : p = x.elem.elem.priority
        · subst hp
          simp [haction, hpeer, pushPriority]
        · simp [haction, hpeer, pushPriority, Function.update_of_ne hp, Ne.symm hp]

theorem bouncePkts_foldl_enqueue (xs : List (Processed Peer Endpoint Call)) :
    (xs.foldl enqueue q).bouncePkts.data = q.bouncePkts.data ++
      ((xs.filter fun x => x.action = .bounce).map fun x => some x.elem) := by
  induction xs generalizing q with
  | nil => simp
  | cons x rest ih =>
    rw [List.foldl_cons, ih]
    unfold enqueue
    cases haction : x.action with
    | pass | drop | bounce => simp [haction, pushBounce]
    | forward => cases hpeer : x.elem.elem.toPeer <;> simp [haction, pushPriority]

/-- The first loop does not touch the other slices. -/
theorem foldl_enqueue_frame (xs : List (Processed Peer Endpoint Call)) :
    (xs.foldl enqueue q).bounceBufs = q.bounceBufs ∧
      (xs.foldl enqueue q).bounceProtos = q.bounceProtos ∧
      (xs.foldl enqueue q).elemsForPeer = q.elemsForPeer := by
  induction xs generalizing q with
  | nil => exact ⟨rfl, rfl, rfl⟩
  | cons x rest ih =>
    obtain ⟨hbufs, hprotos, helems⟩ := @ih (q.enqueue x)
    rw [List.foldl_cons, hbufs, hprotos, helems]
    unfold enqueue
    split <;> exact ⟨rfl, rfl, rfl⟩

end Dispatch

/-- The second part: what was bounced is written and put back. -/
theorem bounce_eq {q : TCQueues Peer Endpoint} (dev : Device Peer Endpoint Call)
    {elems : List (PooledElement Peer Endpoint)} (hpkts : q.bouncePkts.data = elems.map some)
    (hbufs : q.bounceBufs.data = []) (hprotos : q.bounceProtos.data = []) :
    ∃ q', q.bounce dev = .ok (q',
        (dev.bounce (elems.map (·.elem))).toList.map .tunWrite ++ elems.flatMap PooledElement.put) ∧
      q'.bouncePkts.data = [] ∧ q'.bounceBufs.data = [] ∧ q'.bounceProtos.data = [] ∧
      q'.priority = q.priority ∧ q'.elemsForPeer = q.elemsForPeer := by
  unfold bounce
  cases elems with
  | nil =>
    rw [if_pos (by simp [Slice.len, hpkts])]
    exact ⟨q, rfl, hpkts, hbufs, hprotos, rfl, rfl⟩
  | cons elem rest =>
    rw [if_neg (by simp [Slice.len, hpkts]), hpkts, Go.mapM_deref, Go.ok_bind]
    refine ⟨_, congrArg Except.ok (Prod.ext rfl ?_), rfl, rfl, rfl, rfl, rfl⟩
    simp only [Slice.data_foldl_append, hbufs, hprotos, List.nil_append]
    simp only [Device.bounce, List.any_map, List.map_map, Function.comp_def, List.map_cons,
      List.isEmpty_cons, Bool.false_eq_true, if_false, List.any_cons]
    split_ifs <;> rfl

section Arrange

variable [DecidableEq Peer] {q : TCQueues Peer Endpoint}
  {l : List (Peer × PooledElement Peer Endpoint)}

/-- The cells for a peer. -/
def elemsOf (q : TCQueues Peer Endpoint) (peer : Peer) :
    List (Option (PooledElement Peer Endpoint)) :=
  ((q.elemsForPeer.lookup peer).getD .empty).data

theorem foldl_pushPeer (l : List (Peer × PooledElement Peer Endpoint)) :
    (∀ peer, ((l.map some).foldl pushPeer q).elemsOf peer =
        q.elemsOf peer ++ (l.filter fun e => e.1 = peer).map fun e => some e.2) ∧
      ((l.map some).foldl pushPeer q).priority = q.priority ∧
      ((l.map some).foldl pushPeer q).bouncePkts = q.bouncePkts ∧
      ((l.map some).foldl pushPeer q).bounceBufs = q.bounceBufs ∧
      ((l.map some).foldl pushPeer q).bounceProtos = q.bounceProtos := by
  induction l generalizing q with
  | nil => simp
  | cons e rest ih =>
    obtain ⟨helems, hframe⟩ := @ih (q.pushPeer (some e))
    refine ⟨fun peer => ?_, hframe⟩
    rw [List.map_cons, List.foldl_cons, helems]
    by_cases heq : e.1 = peer
    · subst heq
      simp [elemsOf, pushPeer]
    · have hne : peer ≠ e.1 := Ne.symm heq
      simp [elemsOf, pushPeer, heq, AList.lookup_insert_ne hne]

/-- One round of the third loop: the elements of a priority are appended to those of
their peers. -/
theorem arrangeAt_eq {p : TCPriority} (hl : (q.priority p).data = l.map some) :
    (∀ peer, (q.arrangeAt p).elemsOf peer =
        q.elemsOf peer ++ (l.filter fun e => e.1 = peer).map fun e => some e.2) ∧
      (∀ p', ((q.arrangeAt p).priority p').data =
        if p' = p then [] else (q.priority p').data) ∧
      (q.arrangeAt p).bouncePkts = q.bouncePkts ∧
      (q.arrangeAt p).bounceBufs = q.bounceBufs ∧
      (q.arrangeAt p).bounceProtos = q.bounceProtos := by
  unfold arrangeAt
  rw [hl]
  obtain ⟨helems, hpriority, hframe⟩ := @foldl_pushPeer _ _ _ q l
  refine ⟨helems, fun p' => ?_, hframe⟩
  by_cases hp : p' = p
  · subst hp
    simp
  · simp [hpriority, hp]

theorem foldl_arrangeAt {ps : List TCPriority} (hnodup : ps.Nodup)
    (hl : ∀ p ∈ ps, (q.priority p).data = (l.filter fun e => e.2.elem.priority = p).map some) :
    (∀ peer, (ps.foldl arrangeAt q).elemsOf peer = q.elemsOf peer ++
        ((ps.flatMap fun p => l.filter fun e => e.2.elem.priority = p).filter
          fun e => e.1 = peer).map fun e => some e.2) ∧
      (∀ p ∈ ps, ((ps.foldl arrangeAt q).priority p).data = []) ∧
      (∀ p, p ∉ ps → ((ps.foldl arrangeAt q).priority p).data = (q.priority p).data) ∧
      (ps.foldl arrangeAt q).bouncePkts = q.bouncePkts ∧
      (ps.foldl arrangeAt q).bounceBufs = q.bounceBufs ∧
      (ps.foldl arrangeAt q).bounceProtos = q.bounceProtos := by
  induction ps generalizing q with
  | nil => simp
  | cons p rest ih =>
    obtain ⟨hp, hrest⟩ := List.nodup_cons.mp hnodup
    obtain ⟨helems, hpriority, hpkts, hbufs, hprotos⟩ := arrangeAt_eq (hl p List.mem_cons_self)
    have hl' : ∀ p' ∈ rest, ((q.arrangeAt p).priority p').data =
        (l.filter fun e => e.2.elem.priority = p').map some := by
      intro p' hp'
      have hne : p' ≠ p := fun h => hp (h ▸ hp')
      rw [hpriority, if_neg hne, hl p' (List.mem_cons_of_mem _ hp')]
    obtain ⟨helems', hdone, hothers, hpkts', hbufs', hprotos'⟩ := ih hrest hl'
    refine ⟨fun peer => ?_, ?_, ?_, hpkts'.trans hpkts, hbufs'.trans hbufs, hprotos'.trans hprotos⟩
    · rw [List.foldl_cons, helems', helems, List.flatMap_cons, List.filter_append,
        List.map_append, List.append_assoc]
    · intro p' hp'
      by_cases hmem : p' ∈ rest
      · exact hdone p' hmem
      · rw [List.foldl_cons, hothers p' hmem, hpriority,
          if_pos ((List.mem_cons.mp hp').resolve_right hmem)]
    · intro p' hp'
      rw [List.mem_cons, not_or] at hp'
      rw [List.foldl_cons, hothers p' hp'.2, hpriority, if_neg hp'.1]

/-- The third loop. -/
theorem arrange_eq
    (hl : ∀ p, (q.priority p).data = (l.filter fun e => e.2.elem.priority = p).map some) :
    (∀ peer, q.arrange.elemsOf peer = q.elemsOf peer ++
        ((byPriority l).filter fun e => e.1 = peer).map fun e => some e.2) ∧
      (∀ p, (q.arrange.priority p).data = []) ∧
      q.arrange.bouncePkts = q.bouncePkts ∧ q.arrange.bounceBufs = q.bounceBufs ∧
      q.arrange.bounceProtos = q.bounceProtos := by
  obtain ⟨helems, hdone, -, hframe⟩ :=
    @foldl_arrangeAt _ _ _ q l [.max, .high, .medium, .normal] (by decide) fun p _ => hl p
  exact ⟨helems, fun p => hdone p (by cases p <;> decide), hframe⟩

end Arrange

section Stage

variable [DecidableEq Peer] {q : TCQueues Peer Endpoint} {dev : Device Peer Endpoint Call}

/-- What the last loop does for a peer. -/
def stageEffects (dev : Device Peer Endpoint Call) (peer : Peer)
    (elems : List (PooledElement Peer Endpoint)) : List (BatchEffect Peer Endpoint Call) :=
  if elems = [] then [] else stagePeer dev peer elems

/-- One round of the last loop. -/
theorem stage_eq {entry : Σ _ : Peer, Slice (Option (PooledElement Peer Endpoint))}
    {elems : List (PooledElement Peer Endpoint)}
    (hlookup : q.elemsForPeer.lookup entry.1 = some entry.2)
    (hentry : entry.2.data = elems.map some)
    (effects : List (BatchEffect Peer Endpoint Call)) :
    ∃ q', stage dev (q, effects) entry = .ok (q', effects ++ stageEffects dev entry.1 elems) ∧
      (∀ peer, peer ≠ entry.1 → q'.elemsForPeer.lookup peer = q.elemsForPeer.lookup peer) ∧
      (∀ s, q'.elemsForPeer.lookup entry.1 = some s → s.data = []) ∧
      q'.priority = q.priority ∧ q'.bouncePkts = q.bouncePkts ∧
      q'.bounceBufs = q.bounceBufs ∧ q'.bounceProtos = q.bounceProtos := by
  unfold stage
  cases elems with
  | nil =>
    rw [if_pos (by simp [Slice.len, hentry])]
    refine ⟨q, by simp [stageEffects, pure, Except.pure], fun _ _ => rfl, ?_, rfl, rfl, rfl, rfl⟩
    intro s hs
    obtain rfl := Option.some.inj (hlookup.symm.trans hs)
    exact hentry
  | cons elem rest =>
    rw [if_neg (by simp [Slice.len, hentry]), hentry, Go.mapM_deref, Go.ok_bind]
    refine ⟨_, congrArg Except.ok (Prod.ext rfl rfl), ?_, ?_, rfl, rfl, rfl, rfl⟩
    · intro peer hne
      exact AList.lookup_insert_ne hne
    · intro s hs
      obtain rfl := Option.some.inj ((AList.lookup_insert _).symm.trans hs)
      rfl

theorem foldlM_stage {entries : List (Σ _ : Peer, Slice (Option (PooledElement Peer Endpoint)))}
    (elemsFor : Peer → List (PooledElement Peer Endpoint)) (hnodup : entries.NodupKeys)
    (hlookup : ∀ entry ∈ entries, q.elemsForPeer.lookup entry.1 = some entry.2)
    (hdata : ∀ entry ∈ entries, entry.2.data = (elemsFor entry.1).map some)
    (effects : List (BatchEffect Peer Endpoint Call)) :
    ∃ q', entries.foldlM (stage dev) (q, effects) = .ok (q', effects ++ entries.flatMap fun entry =>
          stageEffects dev entry.1 (elemsFor entry.1)) ∧
      (∀ peer s, q'.elemsForPeer.lookup peer = some s →
        s.data = [] ∨ peer ∉ entries.keys ∧ q.elemsForPeer.lookup peer = some s) ∧
      q'.priority = q.priority ∧ q'.bouncePkts = q.bouncePkts ∧
      q'.bounceBufs = q.bounceBufs ∧ q'.bounceProtos = q.bounceProtos := by
  induction entries generalizing q effects with
  | nil =>
    refine ⟨q, by simp [pure, Except.pure], ?_, rfl, rfl, rfl, rfl⟩
    intro peer s hs
    exact .inr ⟨List.not_mem_nil, hs⟩
  | cons entry rest ih =>
    obtain ⟨hkey, hrest⟩ := List.nodupKeys_cons.mp hnodup
    obtain ⟨q₁, hstep, hothers, hdone, hpriority, hpkts, hbufs, hprotos⟩ :=
      @stage_eq _ _ _ _ q dev entry _ (hlookup entry List.mem_cons_self)
        (hdata entry List.mem_cons_self) effects
    have hlookup₁ : ∀ e ∈ rest, q₁.elemsForPeer.lookup e.1 = some e.2 := by
      intro e he
      have hne : e.1 ≠ entry.1 := fun h => hkey (h ▸ List.mem_keys_of_mem he)
      rw [hothers e.1 hne, hlookup e (List.mem_cons_of_mem _ he)]
    obtain ⟨q₂, hrun, hleft, hpriority₂, hpkts₂, hbufs₂, hprotos₂⟩ :=
      ih hrest hlookup₁ (fun e he => hdata e (List.mem_cons_of_mem _ he))
        (effects ++ stageEffects dev entry.1 (elemsFor entry.1))
    refine ⟨q₂, ?_, ?_, hpriority₂.trans hpriority, hpkts₂.trans hpkts,
      hbufs₂.trans hbufs, hprotos₂.trans hprotos⟩
    · rw [List.foldlM_cons, hstep, Go.ok_bind, hrun, List.flatMap_cons, List.append_assoc]
    · intro peer s hs
      rcases hleft peer s hs with hempty | ⟨hnot, hs₁⟩
      · exact .inl hempty
      · by_cases heq : peer = entry.1
        · exact .inl (hdone s (heq ▸ hs₁))
        · refine .inr ⟨?_, hothers peer heq ▸ hs₁⟩
          rw [List.keys_cons, List.mem_cons, not_or]
          exact ⟨heq, hnot⟩

end Stage

/-- The elements that are given to a peer. -/
def elemsFor [DecidableEq Peer] (xs : List (Processed Peer Endpoint Call)) (peer : Peer) :
    List (PooledElement Peer Endpoint) :=
  ((byPriority (xs.filterMap Processed.forwards)).filter fun e => e.1 = peer).map Prod.snd

/-- The effects of a batch, for an order of the peers. -/
def batchEffects [DecidableEq Peer] (dev : Device Peer Endpoint Call)
    (xs : List (Processed Peer Endpoint Call)) (peers : List Peer) :
    List (BatchEffect Peer Endpoint Call) :=
  let bounced := (xs.filter fun x => x.action = .bounce).map (·.elem)
  xs.flatMap Processed.effects ++
    ((dev.bounce (bounced.map (·.elem))).toList.map .tunWrite ++
      bounced.flatMap PooledElement.put) ++
    peers.flatMap fun peer => stageEffects dev peer (elemsFor xs peer)

theorem tcBatch_eq [DecidableEq Peer] {env : BatchEnv Peer Endpoint Call}
    {turns : List (Turn Peer Endpoint Call)} {xs : List (Processed Peer Endpoint Call)}
    {q : TCQueues Peer Endpoint} (hempty : q.Empty)
    (h : List.Forall₂ (fun turn x => env.process turn = .ok x) turns xs) :
    ∃ q' peers, tcBatch env turns q = .ok (q', batchEffects env.dev xs peers) ∧ q'.Empty ∧
      peers.Nodup ∧ ∀ e ∈ xs.filterMap Processed.forwards, e.1 ∈ peers := by
  -- the queues after the first loop
  have hpriority := @priority_foldl_enqueue _ _ _ q xs
  have hbounced := @bouncePkts_foldl_enqueue _ _ _ q xs
  obtain ⟨hbufs, hprotos, helems⟩ := @foldl_enqueue_frame _ _ _ q xs
  simp only [hempty.priority, hempty.bouncePkts, List.nil_append] at hpriority hbounced
  -- after the write
  obtain ⟨q₁, hbounce, hpkts₁, hbufs₁, hprotos₁, hpriority₁, helems₁⟩ :=
    bounce_eq env.dev (hbounced.trans (List.map_map ..).symm)
      (by rw [hbufs, hempty.bounceBufs]) (by rw [hprotos, hempty.bounceProtos])
  -- by peer
  obtain ⟨helems₂, hpriority₂, hpkts₂, hbufs₂, hprotos₂⟩ :=
    @arrange_eq _ _ _ q₁ _ fun p => (congrArg (fun f => (f p).data) hpriority₁).trans (hpriority p)
  have hnone : ∀ peer, q₁.elemsOf peer = [] := by
    intro peer
    rw [elemsOf, helems₁, helems]
    cases hlookup : q.elemsForPeer.lookup peer with
    | none => rfl
    | some s => exact hempty.elemsForPeer peer s hlookup
  have hdata : ∀ peer, q₁.arrange.elemsOf peer = (elemsFor xs peer).map some := by
    intro peer
    rw [helems₂, hnone, List.nil_append, elemsFor, List.map_map]
    rfl
  have hentries : ∀ entry ∈ (env.order.walk q₁.arrange.elemsForPeer).entries,
      q₁.arrange.elemsForPeer.lookup entry.1 = some entry.2 := by
    intro entry hentry
    rw [← env.order.lookup_walk]
    exact (Table.mem_entries_iff _ _ _).mp hentry
  have hkeys : ∀ {peer s}, q₁.arrange.elemsForPeer.lookup peer = some s →
      peer ∈ (env.order.walk q₁.arrange.elemsForPeer).entries.keys := by
    intro peer s hlookup
    rw [← env.order.lookup_walk] at hlookup
    exact List.mem_keys_of_mem ((Table.mem_entries_iff _ _ _).mpr hlookup)
  -- and after the last loop
  obtain ⟨q₃, hstage, hleft, hpriority₃, hpkts₃, hbufs₃, hprotos₃⟩ :=
    @foldlM_stage _ _ _ _ q₁.arrange env.dev _ (elemsFor xs)
      (env.order.walk q₁.arrange.elemsForPeer).nodupKeys hentries
      (fun entry hentry => by rw [← hdata, elemsOf, hentries entry hentry]; rfl) []
  refine ⟨q₃, (env.order.walk q₁.arrange.elemsForPeer).entries.keys, ?_, ?_,
    (env.order.walk q₁.arrange.elemsForPeer).nodupKeys, ?_⟩
  · unfold tcBatch
    rw [foldlM_dispatch h, Go.ok_bind]
    dsimp only
    rw [hbounce, Go.ok_bind]
    dsimp only
    rw [hstage, Go.ok_bind]
    simp only [batchEffects, List.keys, List.flatMap_map, List.nil_append, pure, Except.pure]
  · refine ⟨fun p => by rw [hpriority₃, hpriority₂], by rw [hpkts₃, hpkts₂, hpkts₁],
      by rw [hbufs₃, hbufs₂, hbufs₁], by rw [hprotos₃, hprotos₂, hprotos₁], ?_⟩
    intro peer s hs
    rcases hleft peer s hs with hdone | ⟨hnot, hlookup⟩
    · exact hdone
    · exact absurd (hkeys hlookup) hnot
  · intro e he
    have hmem : e.2 ∈ elemsFor xs e.1 := by
      rw [elemsFor, List.mem_map]
      exact ⟨e, List.mem_filter.mpr ⟨(byPriority_perm _).mem_iff.mpr he, by simp⟩, rfl⟩
    cases hlookup : q₁.arrange.elemsForPeer.lookup e.1 with
    | some s => exact hkeys hlookup
    | none =>
      have hnil := hdata e.1
      rw [elemsOf, hlookup] at hnil
      rw [List.map_eq_nil_iff.mp hnil.symm] at hmem
      exact absurd hmem List.not_mem_nil

end TCQueues

end Nylon.Polyamide
