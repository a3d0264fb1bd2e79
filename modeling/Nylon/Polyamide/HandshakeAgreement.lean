import Nylon.Polyamide.HandshakeTransitions

/-!
The two sides of the fake-TCP transport agree: an established flow and a flow of the peer have
received each other's initial numbers, and data is only handed up by an established flow. This
holds for every run of both sides over a network that forges nothing, as long as the sequence
numbers of different flows do not overlap.
-/

namespace Nylon.Polyamide

open Lib State

section Steps

variable {side side' peer : Side}

theorem Side.RangesApart.of_grows (h : side'.RangesApart) (hgrows : side.Grows side') :
    side.RangesApart :=
  fun m hm m' hm' => h m (hgrows.sent m hm) m' (hgrows.sent m' hm')

theorem Side.grows_of_eq (hhad : side'.had = side.had) (hsent : side'.sent = side.sent) :
    side.Grows side' :=
  ⟨fun _ h => hhad ▸ h, fun _ h => hsent ▸ h⟩

theorem Side.grows_cleanup (side : Side) (now : Time) : side.Grows (side.cleanup now) :=
  Side.grows_of_eq rfl rfl

theorem Side.grows_step (side peer : Side) (event : FlowEvent) :
    side.Grows (side.step peer event) := by
  cases event with
  | prepare enabled isOpen now isn ep =>
    dsimp only [Side.step]
    split
    · exact (side.grows_cleanup now).trans Side.grows_advance
    · exact Side.grows_of_eq rfl rfl
  | receive now isn ep index =>
    dsimp only [Side.step]
    split
    · exact .refl side
    · exact (side.grows_cleanup now).trans Side.grows_advance
  | sendData ep bufs =>
    dsimp only [Side.step]
    split
    · exact .refl side
    · exact Side.grows_advance
  | delete key => exact Side.grows_of_eq rfl rfl

/-- A step keeps the invariant of the side that makes it. -/
theorem Coherent.step (h : Coherent side peer) (hpeer : Coherent peer side)
    (hapart : side.RangesApart) (event : FlowEvent) : Coherent (side.step peer event) peer := by
  have hcleaned : ∀ now, Coherent (side.cleanup now) peer :=
    fun now => h.drop (cleanup_keptFrom side.states now false)
  have hpeerCleaned : ∀ now, Coherent peer (side.cleanup now) :=
    fun now => hpeer.peer_grows (side.grows_cleanup now)
  cases event with
  | prepare enabled isOpen now isn ep =>
    dsimp only [Side.step]
    split
    · next henabled =>
      obtain ⟨rfl, rfl⟩ := Bool.and_eq_true_iff.mp henabled
      exact ((prepareFakeTCP_changes side.states now isn ep).progress (hcleaned now)
        (hpeerCleaned now) hapart
        fun packet hpacket => absurd hpacket (Option.not_mem_none packet)).coherent
        (hcleaned now)
    · next hdisabled =>
      have hsame : (prepareFakeTCP enabled isOpen side.states now isn ep).states =
          side.states := by
        cases enabled with
        | false => rfl
        | true =>
          cases isOpen with
          | false => rfl
          | true => exact absurd rfl hdisabled
      rw [hsame]
      exact h
  | receive now isn ep index =>
    dsimp only [Side.step]
    split
    · exact h
    · next id packet hpacket =>
      have hincoming : ∀ incoming ∈ some packet, ∃ m ∈ peer.sent, m.2 = incoming := by
        intro incoming hincoming
        obtain rfl := Option.mem_some_iff.mp hincoming
        exact ⟨(id, packet), List.mem_of_getElem? hpacket, rfl⟩
      exact ((handleFakeTCPPacket_changes side.states now isn ep packet).progress
        (hcleaned now) (hpeerCleaned now) hapart hincoming).coherent (hcleaned now)
  | sendData ep bufs =>
    dsimp only [Side.step]
    split
    · exact h
    · next hsent =>
      exact ((sendFakeTCPData_changes hsent).progress h hpeer hapart
        fun packet hpacket => absurd hpacket (Option.not_mem_none packet)).coherent h
  | delete key => exact h.drop (erase_keptFrom side.states key)

end Steps

/-- The invariant of both sides, while the ranges do not overlap. -/
def Pair.Sound (pair : Pair) : Prop :=
  pair.left.RangesApart → pair.right.RangesApart →
    Coherent pair.left pair.right ∧ Coherent pair.right pair.left

theorem Pair.sound_start (staleLeft staleRight : Time) : (Pair.start staleLeft staleRight).Sound :=
  fun _ _ => ⟨coherent_start staleLeft _, coherent_start staleRight _⟩

theorem Pair.Sound.step {pair : Pair} (h : pair.Sound) (event : Party × FlowEvent) :
    (pair.step event).Sound := by
  obtain ⟨party, event⟩ := event
  intro hleft hright
  cases party with
  | left =>
    have hgrows := pair.left.grows_step pair.right event
    have hapart : pair.left.RangesApart := hleft.of_grows hgrows
    obtain ⟨hl, hr⟩ := h hapart hright
    exact ⟨hl.step hr hapart event, hr.peer_grows hgrows⟩
  | right =>
    have hgrows := pair.right.grows_step pair.left event
    have hapart : pair.right.RangesApart := hright.of_grows hgrows
    obtain ⟨hl, hr⟩ := h hleft hapart
    exact ⟨hl.peer_grows hgrows, hr.step hl hapart event⟩

theorem Pair.sound_run (staleLeft staleRight : Time) (events : List (Party × FlowEvent)) :
    ((Pair.start staleLeft staleRight).run events).Sound :=
  Transitions.run_invariant (fun (pair : Pair) event (h : pair.Sound) _ => h.step event)
    (Pair.sound_start staleLeft staleRight) Transitions.along_true

theorem Pair.Sound.coherent {pair : Pair} (h : pair.Sound) (hleft : pair.left.RangesApart)
    (hright : pair.right.RangesApart) (party : Party) :
    Coherent (pair.side party) (pair.peer party) := by
  cases party with
  | left => exact (h hleft hright).1
  | right => exact (h hleft hright).2

/-- In every state that two sides reach, an established flow with own initial number `own` has
received an initial number `first`, and the peer has had a flow with own number `first` that
had received `own`. A packet is only handed up by a flow that is established then. -/
theorem handshake_agreement (staleLeft staleRight : Time) (events : List (Party × FlowEvent))
    (hleft : ((Pair.start staleLeft staleRight).run events).left.RangesApart)
    (hright : ((Pair.start staleLeft staleRight).run events).right.RangesApart)
    (party : Party) :
    let pair := (Pair.start staleLeft staleRight).run events
    (∀ key flow, (pair.side party).flow key = some flow → flow.state = .established →
      ∃ first, ((pair.side party).labels key).peer = some first ∧
        ∃ label ∈ (pair.peer party).had, label.own = first ∧
          label.peer = some ((pair.side party).labels key).own) ∧
    (∀ now isn ep packet,
      let s := (pair.side party).states
      (handleFakeTCPPacket s now isn ep packet).deliver = true →
        ∃ flow, (handleFakeTCPPacket s now isn ep packet).states.flows.lookup
            (findFakeTCPFlowLocked (cleanupFakeTCPStatesLocked s now false) ep).1 = some flow ∧
          flow.state = .established) := by
  intro pair
  have hcoherent := (Pair.sound_run staleLeft staleRight events).coherent hleft hright party
  refine ⟨fun key flow hflow hstate => ?_, fun now isn ep packet => established_of_deliver⟩
  obtain ⟨first, hfirst, hhad, _⟩ :=
    (fits_established hstate).mp (hcoherent.fits key flow hflow)
  exact ⟨first, hfirst, hhad⟩

theorem rangesApart_of_single {side : Side} (id : Nat) (h : ∀ m ∈ side.sent, m.1 = id) :
    side.RangesApart :=
  fun m hm m' hm' _ _ _ => (h m hm).trans (h m' hm').symm

def leftEndpoint : StdNetEndpoint := ⟨⟨.v4 0xC0000202, 51820⟩, none, .fakeTCP⟩

def rightEndpoint : StdNetEndpoint := ⟨⟨.v4 0xC0000201, 51820⟩, none, .fakeTCP⟩

/-- The left side opens a flow, the right side accepts it, and data follows. -/
def openedEvents : List (Party × FlowEvent) :=
  [(.left, .prepare true true 0 100 leftEndpoint), (.right, .receive 0 200 rightEndpoint 0),
    (.left, .receive 0 0 leftEndpoint 0), (.right, .receive 0 0 rightEndpoint 1),
    (.left, .sendData leftEndpoint [.replicate 32 7]), (.right, .receive 0 0 rightEndpoint 2)]

/-- Both sides are established, with the numbers 100 and 200. -/
theorem handshake_agreement_opened : let pair := (Pair.start 0 0).run openedEvents
    (pair.right.flow (fakeTCPKey rightEndpoint) = some ⟨.established, 201, 135, 34, 0, true⟩ ∧
      pair.right.labels (fakeTCPKey rightEndpoint) = ⟨0, 200, some 100⟩) ∧
    ∃ first, (pair.right.labels (fakeTCPKey rightEndpoint)).peer = some first ∧
      ∃ label ∈ pair.left.had, label.own = first ∧
        label.peer = some (pair.right.labels (fakeTCPKey rightEndpoint)).own := by
  intro pair
  have hflow : pair.right.flow (fakeTCPKey rightEndpoint) =
      some ⟨.established, 201, 135, 34, 0, true⟩ := by decide +kernel
  refine ⟨⟨hflow, by decide +kernel⟩, ?_⟩
  exact (handshake_agreement 0 0 openedEvents (rangesApart_of_single 0 (by decide +kernel))
    (rangesApart_of_single 0 (by decide +kernel)) .right).1 _ _ hflow rfl

end Nylon.Polyamide
