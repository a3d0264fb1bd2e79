import Nylon.Core.FlushIO

/-!
How large the bundles of `flushIO` are on the wire. A bundle is a message with one
repeated field, so every packet in it costs a tag byte and a length prefix besides its
own size (`protocol/nylon.proto`). The running length of a pass adds up the packets
alone: a pass fills the bundle too far if the packets it visits first stay below
`SafeMTU` by less than what the tags and length prefixes need.
-/

namespace Nylon.Core

open State Netip Lib

/-- Seven bits of the number per byte. -/
def varintSize (n : Nat) : Nat := Nat.log2 n / 7 + 1

def fieldSize (length : Nat) : Nat := 1 + varintSize length + length

/-- A field of type `string` or `bytes`, which is left out if it is empty. -/
def bytesSize (length : Nat) : Nat := if length = 0 then 0 else fieldSize length

/-- A field of type `uint32`, which is left out if it is zero. -/
def uintSize (n : UInt32) : Nat := if n = 0 then 0 else 1 + varintSize n.toNat

/-- The content of the member of `Ny.type` that is set. -/
def NyMessage.contentSize : NyMessage → Nat
  | .seqnoRequestOp req => bytesSize req.routerId.utf8ByteSize + bytesSize req.pfx.length +
      uintSize req.seqno + uintSize req.hopCount
  | .routeOp update => bytesSize update.routerId.utf8ByteSize + bytesSize update.pfx.length +
      uintSize update.seqno + uintSize update.metric
  | .ackRetractOp pfx => bytesSize pfx.length

/-- `proto.Size` of a `Ny`. -/
def NyMessage.protoSize (m : NyMessage) : Nat := fieldSize m.contentSize

theorem NyMessage.protoSize_pos (m : NyMessage) : 0 < m.protoSize := by
  unfold NyMessage.protoSize fieldSize
  omega

def protoTransport (send : List NyMessage → Bool) : Transport :=
  ⟨NyMessage.protoSize, NyMessage.protoSize_pos, send⟩

section Encoded

variable (send : List NyMessage → Bool) (safeMTU : Nat)

/-- The encoded size of the `TransportBundle`. -/
def encodedSize (bundle : List Queued) : Nat :=
  (bundle.map fun q => fieldSize q.message.protoSize).sum

/-- Every bundle with more than one message is smaller than `SafeMTU`. -/
def CoalescesSafely (bundles : List (List Queued)) : Prop :=
  ∀ bundle ∈ bundles, 1 < bundle.length → encodedSize bundle < safeMTU

/-- The messages that a pass would visit begin with several that are below `SafeMTU`
without the tags and length prefixes, and not with them. -/
def BeginsTight (walk : List Queued) : Prop :=
  ∃ front rest, walk = front ++ rest ∧ 1 < front.length ∧
    bundleSize (protoTransport send) front < safeMTU ∧ safeMTU ≤ encodedSize front

/-- The loop comes to a pass with these queues and this order. -/
inductive ComesTo {D : Type} :
    (Nat → PassOrder) → IOPending D → PassOrder → IOPending D → Prop where
  | first (orders : Nat → PassOrder) (io : IOPending D) : ComesTo orders io (orders 0) io
  | next {orders : Nat → PassOrder} {io io' : IOPending D} {w : PassOrder} {bundle : List Queued}
      (htaken : bundle = takeBundle (protoTransport send) safeMTU 0 (io.walked (orders 0)))
      (hnonempty : bundleSize (protoTransport send) bundle ≠ 0)
      (hsent : send (bundle.map Queued.message) = true)
      (hlater : ComesTo (fun pass => orders (pass + 1)) (bundle.foldl IOPending.remove io) w io') :
      ComesTo orders io w io'

end Encoded

section OnePass

variable {tr : Transport} {safeMTU : Nat}

theorem encodedSize_append (front rest : List Queued) :
    encodedSize (front ++ rest) = encodedSize front + encodedSize rest := by
  simp [encodedSize]

/-- Messages that fit together are all taken. -/
theorem takeBundle_of_fits (tLength : Nat) (front rest : List Queued)
    (hfits : tLength + bundleSize tr front < safeMTU) :
    takeBundle tr safeMTU tLength (front ++ rest) =
      front ++ takeBundle tr safeMTU (tLength + bundleSize tr front) rest := by
  induction front generalizing tLength with
  | nil => simp [bundleSize]
  | cons q front ih =>
    have hsplit : bundleSize tr (q :: front) = tr.size q.message + bundleSize tr front := rfl
    rw [hsplit] at hfits ⊢
    have hroom : ¬ (tLength ≠ 0 ∧ safeMTU ≤ tLength + tr.size q.message) := by
      omega
    rw [List.cons_append, takeBundle, if_neg hroom, ih _ (by omega), Nat.add_assoc]
    rfl

/-- A message is added to others only if they stay below the limit. -/
theorem bundleSize_takeBundle {tLength : Nat} (hpos : tLength ≠ 0) (qs : List Queued) :
    takeBundle tr safeMTU tLength qs = [] ∨
      tLength + bundleSize tr (takeBundle tr safeMTU tLength qs) < safeMTU := by
  induction qs generalizing tLength with
  | nil => exact Or.inl rfl
  | cons q qs ih =>
    rw [takeBundle]
    split
    · exact Or.inl rfl
    · next hroom =>
      apply Or.inr
      have hsize := tr.size_pos q.message
      have hsplit : ∀ bundle, bundleSize tr (q :: bundle) =
          tr.size q.message + bundleSize tr bundle := fun _ => rfl
      rw [hsplit]
      rcases @ih (tLength + tr.size q.message) (by omega) with hnone | hmore
      · rw [hnone]
        simp only [bundleSize, List.map_nil, List.sum_nil]
        omega
      · omega

/-- A bundle of several messages is below the limit in its running length. -/
theorem bundleSize_lt {qs : List Queued} (h : 1 < (takeBundle tr safeMTU 0 qs).length) :
    bundleSize tr (takeBundle tr safeMTU 0 qs) < safeMTU := by
  cases qs with
  | nil => simp [takeBundle] at h
  | cons q qs =>
    have hsize := tr.size_pos q.message
    have htake : takeBundle tr safeMTU 0 (q :: qs) =
        q :: takeBundle tr safeMTU (0 + tr.size q.message) qs := by
      rw [takeBundle, if_neg (fun h => h.1 rfl)]
    rw [htake] at h ⊢
    have hpos : 0 + tr.size q.message ≠ 0 := by omega
    rcases @bundleSize_takeBundle tr safeMTU _ hpos qs with hnone | hmore
    · rw [hnone] at h
      simp at h
    · have hsplit : ∀ bundle, bundleSize tr (q :: bundle) =
          tr.size q.message + bundleSize tr bundle := fun _ => rfl
      rw [hsplit]
      omega

end OnePass

section AllPasses

variable {D : Type} {send : List NyMessage → Bool} {safeMTU : Nat}

/-- A pass takes a bundle that is too large exactly if its walk begins tight. -/
theorem takeBundle_safe_iff (walk : List Queued) :
    (1 < (takeBundle (protoTransport send) safeMTU 0 walk).length →
      encodedSize (takeBundle (protoTransport send) safeMTU 0 walk) < safeMTU) ↔
    ¬ BeginsTight send safeMTU walk := by
  constructor
  · rintro hsafe ⟨front, rest, rfl, hseveral, hbelow, habove⟩
    have htake := @takeBundle_of_fits (protoTransport send) safeMTU 0 front rest (by omega)
    rw [htake, List.length_append, encodedSize_append] at hsafe
    have hlt := hsafe (by omega)
    omega
  · intro hloose hseveral
    by_contra hlarge
    obtain ⟨rest, hrest⟩ := takeBundle_append (protoTransport send) safeMTU 0 walk
    exact hloose ⟨_, rest, hrest, hseveral, bundleSize_lt hseveral, Nat.le_of_not_lt hlarge⟩

theorem comesTo_iff {orders : Nat → PassOrder} {io io' : IOPending D} {w : PassOrder}
    {bundle : List Queued}
    (htaken : takeBundle (protoTransport send) safeMTU 0 (io.walked (orders 0)) = bundle) :
    ComesTo send safeMTU orders io w io' ↔
      (w = orders 0 ∧ io' = io) ∨
      (bundleSize (protoTransport send) bundle ≠ 0 ∧ send (bundle.map Queued.message) = true ∧
        ComesTo send safeMTU (fun pass => orders (pass + 1)) (bundle.foldl IOPending.remove io)
          w io') := by
  constructor
  · intro h
    cases h with
    | first => exact Or.inl ⟨rfl, rfl⟩
    | next htaken' hnonempty hsent hlater =>
      rw [htaken] at htaken'
      subst htaken'
      exact Or.inr ⟨hnonempty, hsent, hlater⟩
  · rintro (⟨rfl, rfl⟩ | ⟨hnonempty, hsent, hlater⟩)
    · exact .first orders io'
    · exact .next htaken.symm hnonempty hsent hlater

/-- A pass that takes nothing has nothing to visit. -/
theorem not_beginsTight_of_bundleSize {walk : List Queued}
    (h : bundleSize (protoTransport send) (takeBundle (protoTransport send) safeMTU 0 walk) = 0) :
    ¬ BeginsTight send safeMTU walk := by
  apply (takeBundle_safe_iff walk).mp
  intro hseveral
  cases htaken : takeBundle (protoTransport send) safeMTU 0 walk with
  | nil =>
    rw [htaken] at hseveral
    cases hseveral
  | cons q bundle =>
    rw [htaken] at h
    exact absurd h (bundleSize_pos q bundle).ne'

theorem coalescesSafely_iff {fuel : Nat} {orders : Nat → PassOrder} {io : IOPending D}
    {out : Flushed (List Queued) (IOPending D)}
    (hout : flushPasses (protoTransport send) safeMTU fuel orders io = some out) :
    CoalescesSafely safeMTU out.sent ↔ ∀ w io', ComesTo send safeMTU orders io w io' →
        ¬ BeginsTight send safeMTU (io'.walked w) := by
  induction fuel generalizing orders io out with
  | zero => cases hout
  | succ fuel ih =>
    rw [flushPasses] at hout
    have hpass := @takeBundle_safe_iff send safeMTU (io.walked (orders 0))
    have hempty := @not_beginsTight_of_bundleSize send safeMTU (io.walked (orders 0))
    generalize htaken : takeBundle (protoTransport send) safeMTU 0 (io.walked (orders 0)) =
      bundle at hout hpass hempty
    -- the passes that are reached are this one and, after a bundle was sent, the later ones
    simp only [comesTo_iff htaken]
    split at hout
    · next hnone =>
      cases hout
      have hloose := hempty hnone
      simp only [CoalescesSafely, List.not_mem_nil, false_implies, implies_true, true_iff,
        hnone, ne_eq, not_true_eq_false, false_and, or_false]
      rintro w io' ⟨rfl, rfl⟩
      exact hloose
    · next hsome =>
      split at hout
      · next hsent =>
        change send _ = true at hsent
        obtain ⟨later, hlater, rfl⟩ := Option.map_eq_some_iff.mp hout
        have hrest := ih hlater
        unfold CoalescesSafely at hrest ⊢
        rw [List.forall_mem_cons, hpass, hrest]
        constructor
        · rintro ⟨hfirst, hothers⟩ w io' (⟨rfl, rfl⟩ | ⟨_, _, hcomes⟩)
          · exact hfirst
          · exact hothers w io' hcomes
        · intro h
          exact ⟨h _ _ (Or.inl ⟨rfl, rfl⟩),
            fun w io' hcomes => h w io' (Or.inr ⟨hsome, hsent, hcomes⟩)⟩
      · next hfailed =>
        cases hout
        change ¬ send _ = true at hfailed
        unfold CoalescesSafely
        rw [List.forall_mem_singleton, hpass]
        constructor
        · rintro hfirst w io' (⟨rfl, rfl⟩ | ⟨_, hsent, _⟩)
          · exact hfirst
          · exact absurd hsent hfailed
        · intro h
          exact h _ _ (Or.inl ⟨rfl, rfl⟩)

/-- The flush of a neighbour's queues keeps all bundles of several messages below
`SafeMTU` exactly if none of its passes comes upon messages that begin tight. -/
theorem coalesced_bundles_safe_iff (send : List NyMessage → Bool) (safeMTU : Nat)
    (orders : Nat → PassOrder) (io : IOPending D) :
    ∃ out, flushPasses (protoTransport send) safeMTU (io.queued.length + 1) orders io = some out ∧
      (CoalescesSafely safeMTU out.sent ↔ ∀ w io', ComesTo send safeMTU orders io w io' →
          ¬ BeginsTight send safeMTU (io'.walked w)) := by
  obtain ⟨out, hout, _⟩ :=
    flushPasses_spec (protoTransport send) safeMTU orders (Nat.lt_succ_self io.queued.length)
  exact ⟨out, hout, coalescesSafely_iff hout⟩

end AllPasses

section Sample

/-- Acknowledgements for `n` prefixes of the same size. -/
def acksPending : Nat → IOPending (ExpiryMap Source UInt16)
  | 0 => .empty
  | n + 1 => (acksPending n).sendAckRetract ⟨.v6 (.ofNat _ n), 128, le_refl _⟩

def bundleSizes {D : Type} (out : Flushed (List Queued) (IOPending D)) : List (Nat × Nat) :=
  out.sent.map fun bundle => (bundle.length, encodedSize bundle)

/-- With the default of 1200 bytes, 53 acknowledgements for prefixes of IPv6 are sent in
one bundle of 1219 bytes. -/
theorem many_small_messages_exceed_mtu : ∃ out, flushPasses (protoTransport fun _ => true) 1200 54
        (fun _ => ⟨.stored, .stored, .stored⟩) (acksPending 53) = some out ∧
      bundleSizes out = [(53, 1219)] ∧ ¬ CoalescesSafely 1200 out.sent := by
  have hflush : (flushPasses (protoTransport fun _ => true) 1200 54
      (fun _ => ⟨.stored, .stored, .stored⟩) (acksPending 53)).map bundleSizes =
      some [(53, 1219)] := by
    decide +kernel
  obtain ⟨out, hout, hsizes⟩ := Option.map_eq_some_iff.mp hflush
  refine ⟨out, hout, hsizes, ?_⟩
  intro hsafe
  have hmem : (53, 1219) ∈ bundleSizes out := by
    rw [hsizes]
    exact List.mem_singleton_self _
  obtain ⟨bundle, hbundle, heq⟩ := List.mem_map.mp hmem
  obtain ⟨hlength, hsize⟩ := Prod.mk.inj heq
  have hbelow := hsafe bundle hbundle (by omega)
  omega

end Sample

end Nylon.Core
