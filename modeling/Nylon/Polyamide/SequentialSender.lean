import Nylon.Polyamide.SendBuffers

/-!
The sender of a peer (`RoutineSequentialSender` in `polyamide/device/send.go`). It
takes one container after the other from its queue, sends the packets in it and
returns the elements, their message buffers and the container to their pools. What
it does with a container is a list of effects; elements, buffers and containers are
told apart by numbers. Taking and setting of locks and log lines are left out.
-/

namespace Nylon.Polyamide

open Lib

/-- The size of a message without content. -/
def messageKeepaliveSize : Nat := 32

structure QueueOutboundElement (Endpoint : Type) where
  id : Nat
  buffer : Nat
  packet : List UInt8
  endpoint : Option Endpoint
  deriving DecidableEq, Repr

structure QueueOutboundElementsContainer (Endpoint : Type) where
  id : Nat
  elems : List (QueueOutboundElement Endpoint)
  deriving DecidableEq, Repr

/-- What the sender finds while it processes a container: the endpoints of the peer
are read twice, and the bind answers each call. -/
structure SenderEnv (Endpoint : Type) where
  isRunning : Bool
  isClosed : Bool
  known : List Endpoint
  endpoints : List Endpoint
  sendErr : Nat → Option SendError

inductive SenderEffect (Endpoint : Type) where
  | timersAnyAuthenticatedPacketTraversal
  | timersAnyAuthenticatedPacketSent
  | send (call : SendCall (List UInt8) Endpoint)
  | timersDataSent
  | putMessageBuffer (buffer : Nat)
  | putOutboundElement (elem : Nat)
  | putOutboundElementsContainer (container : Nat)
  | keepKeyFreshSending
  deriving DecidableEq, Repr

variable {Endpoint : Type}

/-- Elements with their buffers and then the container are put back. -/
def putContainer (c : QueueOutboundElementsContainer Endpoint) : List (SenderEffect Endpoint) :=
  c.elems.flatMap (fun elem => [.putMessageBuffer elem.buffer, .putOutboundElement elem.id]) ++
    [.putOutboundElementsContainer c.id]

/-- The error that is left when the second attempt of the bind counts. -/
def SendError.afterRetry : SendError → Option String
  | .gsoDisabled retryErr => retryErr
  | .other msg => some msg

/-- The body of the loop. A failed partition goes on with the next container. -/
def processContainer [DecidableEq Endpoint] (env : SenderEnv Endpoint)
    (c : QueueOutboundElementsContainer Endpoint) : Go (List (SenderEffect Endpoint)) :=
  if !env.isRunning then return putContainer c
  else
    let dataSent := c.elems.any fun elem => elem.packet.length != messageKeepaliveSize
    let timers : List (SenderEffect Endpoint) :=
      [.timersAnyAuthenticatedPacketTraversal, .timersAnyAuthenticatedPacketSent]
    match partitionBuffersByEndpoint env.known
        (c.elems.map fun elem => (elem.packet, elem.endpoint)) with
    | .error _ => return timers
    | .ok arranged => do
      let r ← sendBuffers env.isClosed env.endpoints env.sendErr (explicit arranged)
      let failed := (r.anyError.bind SendError.afterRetry).isSome
      return timers ++ r.calls.map .send ++
        (if dataSent then [.timersDataSent] else []) ++ putContainer c ++
        (if failed then [] else [.keepKeyFreshSending])

/-- The loop over the queue, where a `nil` container ends the routine. The effects are
kept apart by container. -/
def routineSequentialSender [DecidableEq Endpoint] :
    List (SenderEnv Endpoint × Option (QueueOutboundElementsContainer Endpoint)) →
      Go (List (List (SenderEffect Endpoint)))
  | [] => return []
  | (_, none) :: _ => return []
  | (env, some c) :: rest => do
    let effects ← processContainer env c
    let others ← routineSequentialSender rest
    return effects :: others

def takenContainers : List (SenderEnv Endpoint × Option (QueueOutboundElementsContainer Endpoint)) →
      List (SenderEnv Endpoint × QueueOutboundElementsContainer Endpoint)
  | [] => []
  | (_, none) :: _ => []
  | (env, some c) :: rest => (env, c) :: takenContainers rest

def SenderEffect.isRelease : SenderEffect Endpoint → Bool
  | .putMessageBuffer _ | .putOutboundElement _ | .putOutboundElementsContainer _ => true
  | _ => false

/-- The releases among the effects are those of the container, each once. -/
def ReleasesOnce (c : QueueOutboundElementsContainer Endpoint)
    (effects : List (SenderEffect Endpoint)) : Prop :=
  (effects.filter SenderEffect.isRelease).Perm (putContainer c)

/-- Every container is released before the next one is taken. -/
def ReleasesEverything [DecidableEq Endpoint]
    (queue : List (SenderEnv Endpoint × Option (QueueOutboundElementsContainer Endpoint))) :
    Prop :=
  ∃ logs, routineSequentialSender queue = .ok logs ∧
    List.Forall₂ (fun item effects => ReleasesOnce item.2 effects) (takenContainers queue) logs

/-- The peer is stopped, or there is an endpoint for each element of the container and
the container has an element, unless the device is closed. -/
def Sendable (env : SenderEnv Endpoint) (c : QueueOutboundElementsContainer Endpoint) :
    Prop :=
  env.isRunning = false ∨
    ((∀ elem ∈ c.elems, elem.endpoint = none → env.known ≠ []) ∧
      (c.elems = [] → env.isClosed = true))

section Releases

theorem filter_isRelease_putContainer (c : QueueOutboundElementsContainer Endpoint) :
    (putContainer c).filter SenderEffect.isRelease = putContainer c := by
  rw [List.filter_eq_self]
  intro effect heffect
  simp only [putContainer, List.mem_append, List.mem_flatMap, List.mem_cons,
    List.not_mem_nil, or_false] at heffect
  rcases heffect with ⟨elem, -, rfl | rfl⟩ | rfl <;> rfl

theorem putContainer_ne_nil (c : QueueOutboundElementsContainer Endpoint) :
    putContainer c ≠ [] := by
  simp [putContainer]

/-- What is done around the releases releases nothing. -/
theorem releasesOnce_around (c : QueueOutboundElementsContainer Endpoint)
    {before after : List (SenderEffect Endpoint)}
    (hbefore : ∀ effect ∈ before, effect.isRelease = false)
    (hafter : ∀ effect ∈ after, effect.isRelease = false) :
    ReleasesOnce c (before ++ putContainer c ++ after) := by
  have hnone : ∀ {effects : List (SenderEffect Endpoint)},
      (∀ effect ∈ effects, effect.isRelease = false) →
        effects.filter SenderEffect.isRelease = [] := by
    intro effects h
    rw [List.filter_eq_nil_iff]
    intro effect heffect
    rw [h effect heffect]
    exact Bool.false_ne_true
  rw [ReleasesOnce, List.filter_append, List.filter_append, hnone hbefore, hnone hafter,
    filter_isRelease_putContainer, List.nil_append, List.append_nil]

end Releases

variable [DecidableEq Endpoint]

/-- A container is released exactly if it can be sent. -/
theorem processContainer_releases_iff (env : SenderEnv Endpoint)
    (c : QueueOutboundElementsContainer Endpoint) :
    (∃ effects, processContainer env c = .ok effects ∧ ReleasesOnce c effects) ↔
      Sendable env c := by
  unfold processContainer Sendable
  cases hrunning : env.isRunning with
  | false =>
    refine iff_of_true ⟨_, rfl, ?_⟩ (.inl rfl)
    rw [ReleasesOnce, filter_isRelease_putContainer]
  | true =>
    simp only [Bool.not_true, Bool.false_eq_true, if_false, reduceCtorEq, false_or]
    rcases partitionBuffers_cases env.known
        (c.elems.map fun elem => (elem.packet, elem.endpoint)) with
      ⟨arranged, hok, hknown, hempty⟩ | ⟨⟨err, herr⟩, entry, hmem, hmissing, hnone⟩
    · rw [hok]
      rw [List.map_eq_nil_iff] at hempty
      have hexplicit : explicit arranged = [] ↔ c.elems = [] := by
        rw [explicit, List.map_eq_nil_iff, hempty]
      rcases sendBuffers_cases env.endpoints env.sendErr env.isClosed (explicit arranged) with
        ⟨⟨r, hsend⟩, hclosed⟩ | ⟨hsend, hnil, hopen⟩
      · simp only [hsend, Go.ok_bind]
        refine iff_of_true ⟨_, rfl, releasesOnce_around c ?_ ?_⟩
          ⟨List.forall_mem_map.mp hknown, fun hnil => hclosed (hexplicit.mpr hnil)⟩
        · simp only [List.mem_append, List.mem_cons, List.not_mem_nil, or_false, List.mem_map]
          rintro effect (((rfl | rfl) | ⟨call, -, rfl⟩) | hdata)
          · rfl
          · rfl
          · rfl
          · split at hdata
            · rw [List.mem_singleton.mp hdata]; rfl
            · cases hdata
        · intro effect heffect
          split at heffect
          · cases heffect
          · rw [List.mem_singleton.mp heffect]; rfl
      · simp only [hsend]
        refine iff_of_false ?_ ?_
        · rintro ⟨effects, heffects, -⟩
          cases heffects
        · rintro ⟨-, hclosed⟩
          rw [hclosed (hexplicit.mp hnil)] at hopen
          cases hopen
    · rw [herr]
      refine iff_of_false ?_ ?_
      · rintro ⟨effects, heffects, hreleases⟩
        obtain rfl := Except.ok.inj heffects
        exact putContainer_ne_nil c (List.nil_perm.mp hreleases)
      · rintro ⟨hsendable, -⟩
        obtain ⟨elem, helem, rfl⟩ := List.mem_map.mp hmem
        exact hsendable elem helem hmissing hnone

/-- The sender releases everything it takes exactly if every container it takes can be
sent: with an element that has no endpoint and no endpoint known, the container, its
elements and their buffers are lost. -/
theorem routineSequentialSender_releases_iff
    (queue : List (SenderEnv Endpoint × Option (QueueOutboundElementsContainer Endpoint))) :
    ReleasesEverything queue ↔ ∀ item ∈ takenContainers queue, Sendable item.1 item.2 := by
  induction queue with
  | nil => exact iff_of_true ⟨[], rfl, .nil⟩ (by simp [takenContainers])
  | cons item rest ih =>
    obtain ⟨env, _ | c⟩ := item
    · exact iff_of_true ⟨[], rfl, .nil⟩ (by simp [takenContainers])
    · rw [takenContainers, List.forall_mem_cons, ← ih, ← processContainer_releases_iff]
      constructor
      · rintro ⟨logs, hrun, hlogs⟩
        rw [routineSequentialSender] at hrun
        cases hstep : processContainer env c with
        | error p => rw [hstep] at hrun; cases hrun
        | ok effects =>
          rw [hstep, Go.ok_bind] at hrun
          cases hrest : routineSequentialSender rest with
          | error p => rw [hrest] at hrun; cases hrun
          | ok others =>
            rw [hrest] at hrun
            obtain rfl := Except.ok.inj hrun
            cases hlogs with
            | cons hfirst hothers =>
              exact ⟨⟨effects, rfl, hfirst⟩, others, hrest, hothers⟩
      · rintro ⟨⟨effects, hstep, hfirst⟩, others, hrest, hothers⟩
        refine ⟨effects :: others, ?_, .cons hfirst hothers⟩
        rw [routineSequentialSender, hstep, Go.ok_bind, hrest]
        rfl

/-- A running peer without a known endpoint and a packet without one of its own:
nothing is released. -/
theorem routineSequentialSender_leaks :
    let env : SenderEnv Nat := ⟨true, false, [], [], fun _ => none⟩
    let c : QueueOutboundElementsContainer Nat := ⟨1, [⟨2, 3, [0], none⟩]⟩
    routineSequentialSender [(env, some c)] =
        .ok [[.timersAnyAuthenticatedPacketTraversal, .timersAnyAuthenticatedPacketSent]] ∧
      ¬ ReleasesEverything [(env, some c)] := by
  refine ⟨rfl, ?_⟩
  rintro ⟨logs, hrun, hlogs⟩
  obtain rfl := Except.ok.inj hrun
  cases hlogs with
  | cons hfirst _ => exact putContainer_ne_nil _ (List.nil_perm.mp hfirst)

end Nylon.Polyamide
