import Nylon.Lib.Transitions
import Nylon.State.LinkDelays

/-!
Two runs of a neighbour's links that differ in the clock offset of the peer: the same
probes are received at the same local times, and every timestamp of the peer is later
by a constant. The averages then differ by the constant, and the values of the windows
by the constant and one nanosecond. What is left is the hysteresis: as long as both runs
move the median of a direction together, they measure the same round-trip time up to
two nanoseconds, and order links alike.
-/

namespace Nylon.State

open Lib List

/-- The second delay is later by the shift, up to what is cut off. -/
def Near (shift x x' : Int) : Prop := |x' - x - shift| ≤ 1

theorem near_iff {shift x x' : Int} :
    Near shift x x' ↔ x + shift - 1 ≤ x' ∧ x' ≤ x + shift + 1 := by
  unfold Near
  rw [abs_le]
  omega

theorem near_exchanges (shift : Int) : Exchanges (Near shift) := by
  intro x x' y y' hx hy h h'
  simp only [near_iff] at *
  omega

theorem near_truncate (q : ℚ) (shift : Int) : Near shift (truncate q) (truncate (q + shift)) := by
  have hfloor : ⌊q + (shift : ℚ)⌋ = ⌊q⌋ + shift := Int.floor_add_intCast q shift
  have hceil : ⌈q + (shift : ℚ)⌉ = ⌈q⌉ + shift := Int.ceil_add_intCast q shift
  have hle : ⌊q⌋ ≤ ⌈q⌉ := Int.floor_le_ceil q
  have hge : ⌈q⌉ ≤ ⌊q⌋ + 1 := Int.ceil_le_floor_add_one q
  rw [near_iff]
  unfold truncate
  split <;> split <;> omega

theorem near_sum {shift out inb out' inb' : Int} (h : Near shift out out')
    (h' : Near (-shift) inb inb') : |out' + inb' - (out + inb)| ≤ 2 := by
  rw [near_iff] at h h'
  rw [abs_le]
  omega

theorem near_order {shift x y x' y' : Int} (h : Near shift x x') (h' : Near shift y y') :
    (x + 2 < y → x' < y') ∧ (x' + 2 < y' → x < y) := by
  rw [near_iff] at h h'
  omega

/-- Two filters of one direction. Zero is also the median that a filter starts with. -/
structure ShiftedFilter (shift : Time) (f f' : DelayFilter) : Prop where
  init : f'.init = f.init
  exp : f.init = true → f'.exp = f.exp + shift
  dirty : f'.dirty = f.dirty
  history : Forall₂ (Near shift) f.history f'.history
  histSort : f.dirty = false → Forall₂ (Near shift) f.histSort f'.histSort
  median : Near shift f.prevMedian f'.prevMedian ∨ f.prevMedian = 0 ∧ f'.prevMedian = 0

namespace DelayFilter

/-- Whether the median moves when the delay is read. -/
def moves (t : DelayTunables) (f : DelayFilter) : Go Bool := do
  let (low, high, _) ← trimmed t f.sorted.histSort
  return f.prevMedian < low ∨ high < f.prevMedian

end DelayFilter

/-- Both filters move their medians or keep them, and medians that are still the zero
from the start are moved. -/
def MoveAlike (t : DelayTunables) (shift : Time) (f f' : DelayFilter) : Prop :=
  f.moves t = f'.moves t ∧
    (1 < |shift| → f.prevMedian = 0 → f'.prevMedian = 0 → f.moves t ≠ .ok false)

instance (t : DelayTunables) (shift : Time) (f f' : DelayFilter) :
    Decidable (MoveAlike t shift f f') :=
  inferInstanceAs (Decidable (_ ∧ _))

section Filters

variable {shift : Time} {f f' : DelayFilter}

theorem shiftedFilter_zero (shift : Time) : ShiftedFilter shift .zero .zero where
  init := rfl
  exp h := nomatch h
  dirty := rfl
  history := .nil
  histSort _ := .nil
  median := .inr ⟨rfl, rfl⟩

theorem ShiftedFilter.reset (_ : ShiftedFilter shift f f') :
    ShiftedFilter shift f.reset f'.reset where
  init := rfl
  exp h := nomatch h
  dirty := rfl
  history := .nil
  histSort h := nomatch h
  median := .inr ⟨rfl, rfl⟩

/-- A sample that is no jump enters the average and the window. -/
theorem update_noJump {sample : Time} (h : ¬ f.Jumps sample) (t : DelayTunables) :
    let exp := DelayFilter.alpha * sample +
      (1 - DelayFilter.alpha) * (if f.init then f.exp else sample)
    let history := f.history ++ [truncate exp]
    f.update t sample =
      {f with
        exp := exp
        init := true
        history := if t.windowSamples < history.length then history.tail else history
        dirty := true} := by
  unfold DelayFilter.update
  rw [if_neg h]
  obtain ⟨history, histSort, dirty, prevMedian, exp, init⟩ := f
  cases init with
  | true => rfl
  | false => rfl

theorem ShiftedFilter.update (h : ShiftedFilter shift f f') (t : DelayTunables)
    {sample sample' : Time} (hsample : sample' = sample + shift) (hjump : ¬ f.Jumps sample)
    (hjump' : ¬ f'.Jumps sample') :
    ShiftedFilter shift (f.update t sample) (f'.update t sample') := by
  have hstart : (if f'.init then f'.exp else (sample' : ℚ)) =
      (if f.init then f.exp else (sample : ℚ)) + shift := by
    rw [h.init, hsample]
    split
    · exact h.exp ‹_›
    · exact Int.cast_add sample shift
  have hexp : DelayFilter.alpha * sample' +
        (1 - DelayFilter.alpha) * (if f'.init then f'.exp else (sample' : ℚ)) =
      DelayFilter.alpha * sample +
        (1 - DelayFilter.alpha) * (if f.init then f.exp else (sample : ℚ)) + shift := by
    rw [hstart, hsample, Int.cast_add]
    ring
  rw [update_noJump hjump, update_noJump hjump', hexp]
  obtain ⟨exp, he⟩ : ∃ exp, DelayFilter.alpha * sample +
    (1 - DelayFilter.alpha) * (if f.init then f.exp else (sample : ℚ)) = exp := ⟨_, rfl⟩
  rw [he]
  have hhistory : Forall₂ (Near shift) (f.history ++ [truncate exp])
      (f'.history ++ [truncate (exp + shift)]) :=
    rel_append h.history (.cons (near_truncate exp shift) .nil)
  constructor
  case init => rfl
  case exp => exact fun _ => rfl
  case dirty => rfl
  case history =>
    dsimp only
    rw [← hhistory.length_eq]
    split
    · simpa using forall₂_drop 1 hhistory
    · exact hhistory
  case histSort => exact fun hclean => nomatch hclean
  case median => exact h.median

theorem ShiftedFilter.ready (h : ShiftedFilter shift f f') (t : DelayTunables) :
    f'.ready t = f.ready t := by
  unfold DelayFilter.ready
  rw [h.history.length_eq]

theorem ShiftedFilter.sorted (h : ShiftedFilter shift f f') :
    ShiftedFilter shift f.sorted f'.sorted := by
  unfold DelayFilter.sorted
  rw [h.dirty]
  split
  · exact ⟨h.init, h.exp, rfl, h.history,
      fun _ => (near_exchanges shift).insertionSort h.history, h.median⟩
  · exact h

theorem trimmed_near {window window' : List Time} (h : Forall₂ (Near shift) window window')
    (t : DelayTunables) :
    Go.Rel (fun r r' => Near shift r.1 r'.1 ∧ Near shift r.2.1 r'.2.1 ∧
      Near shift r.2.2 r'.2.2) (DelayFilter.trimmed t window)
      (DelayFilter.trimmed t window') := by
  unfold DelayFilter.trimmed
  rw [h.length_eq]
  refine (Go.Rel.elem h _).bind fun low low' hlow => ?_
  refine (Go.Rel.elem h _).bind fun high high' hhigh => ?_
  refine (Go.Rel.elem h _).bind fun med med' hmed => ?_
  exact .ok ⟨hlow, hhigh, hmed⟩

theorem ShiftedFilter.moved (h : ShiftedFilter shift f f') {low high med low' high' med' : Time}
    (hmoves : (f.prevMedian < low ∨ high < f.prevMedian) ↔
      (f'.prevMedian < low' ∨ high' < f'.prevMedian))
    (hmed : Near shift med med')
    (hkept : ¬ (f.prevMedian < low ∨ high < f.prevMedian) → Near shift f.prevMedian f'.prevMedian) :
    Near shift (f.moved low high med).prevMedian (f'.moved low' high' med').prevMedian ∧
      ShiftedFilter shift (f.moved low high med) (f'.moved low' high' med') := by
  unfold DelayFilter.moved
  by_cases hmove : f.prevMedian < low ∨ high < f.prevMedian
  · rw [if_pos hmove, if_pos (hmoves.mp hmove)]
    exact ⟨hmed, h.init, h.exp, h.dirty, h.history, h.histSort, .inl hmed⟩
  · rw [if_neg hmove, if_neg (hmove ∘ hmoves.mpr)]
    exact ⟨hkept hmove, h⟩

/-- Reading moves the medians to near ones, or keeps near ones. -/
theorem ShiftedFilter.stabilized (h : ShiftedFilter shift f f') (t : DelayTunables)
    (halike : MoveAlike t shift f f') :
    Go.Rel (fun r r' => Near shift r.1 r'.1 ∧ ShiftedFilter shift r.2 r'.2)
      (f.stabilized t) (f'.stabilized t) := by
  have hsorted := h.sorted
  have htrimmed := trimmed_near (hsorted.histSort f.dirty_sorted) t
  obtain ⟨hsame, hfresh⟩ := halike
  unfold DelayFilter.moves at hsame hfresh
  rw [← f.prevMedian_sorted, ← f'.prevMedian_sorted] at hsame hfresh
  change Go.Rel _ (DelayFilter.trimmed t f.sorted.histSort >>= fun r => _)
    (DelayFilter.trimmed t f'.sorted.histSort >>= fun r => _)
  generalize DelayFilter.trimmed t f.sorted.histSort = read at *
  generalize DelayFilter.trimmed t f'.sorted.histSort = read' at *
  cases htrimmed with
  | panic p => exact .panic p
  | @ok a b hnear =>
    obtain ⟨low, high, med⟩ := a
    obtain ⟨low', high', med'⟩ := b
    refine .ok (hsorted.moved (decide_eq_decide.mp (Except.ok.inj hsame)) hnear.2.2 ?_)
    intro hkeep
    rcases hsorted.median with hnear | ⟨hzero, hzero'⟩
    · exact hnear
    · -- both medians are the zero from the start, which is near itself for a small shift
      have hsmall : |shift| ≤ 1 := by
        by_contra hlarge
        exact hfresh (lt_of_not_ge hlarge) hzero hzero'
          (congrArg Except.ok (decide_eq_false hkeep))
      rw [hzero, hzero']
      simpa [Near] using hsmall

end Filters

/-- A link in both runs. -/
inductive ShiftedLink (shift : Time) (u : LinkDelays) : LinkDelays → Prop
  | intro {owdOut owdIn : DelayFilter} {peerTx : Time}
      (out : ShiftedFilter shift u.owdOut owdOut)
      (inb : ShiftedFilter (-shift) u.owdIn owdIn)
      (peer : u.havePeerTx = true → peerTx = u.peerTx + shift) :
      ShiftedLink shift u {u with owdOut := owdOut, owdIn := owdIn, peerTx := peerTx}

/-- Only the timestamps of the peer are shifted, not those it echoes. -/
def ProbeTimes.shift (shift : Time) (probe : ProbeTimes) : ProbeTimes :=
  ⟨probe.txTs + shift, probe.originTxTs, probe.originRxTs.map (· + shift)⟩

/-- No sample of the probe is taken for a jump of the clock. -/
def NoJump (u : LinkDelays) (probe : ProbeTimes) (rxTs : Time) : Prop :=
  (u.staleInbound probe.txTs = false → ¬ u.owdIn.Jumps (rxTs - probe.txTs)) ∧
    ∀ originTx ∈ probe.originTxTs, ∀ peerRx ∈ probe.originRxTs,
      originTx ∈ u.pending → ¬ u.owdOut.Jumps (peerRx - originTx)

instance (u : LinkDelays) (probe : ProbeTimes) (rxTs : Time) : Decidable (NoJump u probe rxTs) :=
  inferInstanceAs (Decidable (_ ∧ _))

/-- In both directions the medians of a link that is ready move together. -/
def ReadAlike (t : DelayTunables) (shift : Time) (u u' : LinkDelays) : Prop :=
  u.ready t = true → MoveAlike t shift u.owdOut u'.owdOut ∧ MoveAlike t (-shift) u.owdIn u'.owdIn

instance (t : DelayTunables) (shift : Time) (u u' : LinkDelays) :
    Decidable (ReadAlike t shift u u') :=
  inferInstanceAs (Decidable (_ → _))

section Links

variable {shift : Time} {u u' : LinkDelays}

theorem shiftedLink_new (shift : Time) : ShiftedLink shift .new .new :=
  .intro (shiftedFilter_zero _) (shiftedFilter_zero _) nofun

theorem ShiftedLink.renew (h : ShiftedLink shift u u') (t : DelayTunables) (now : Time) :
    ShiftedLink shift (u.renew t now) (u'.renew t now) := by
  obtain @⟨owdOut, owdIn, peerTx, hout, hin, hpeer⟩ := h
  unfold LinkDelays.renew
  rw [show LinkDelays.isActive t {u with owdOut := owdOut, owdIn := owdIn, peerTx := peerTx}
    now = u.isActive t now from rfl]
  split
  · exact .intro hout hin hpeer
  · exact .intro hout.reset hin.reset nofun

theorem ShiftedLink.pending (h : ShiftedLink shift u u') : u'.pending = u.pending := by
  obtain ⟨hout, hin, hpeer⟩ := h
  rfl

theorem ShiftedLink.withPending (h : ShiftedLink shift u u') (pending : List Time) :
    ShiftedLink shift {u with pending := pending} {u' with pending := pending} := by
  obtain ⟨hout, hin, hpeer⟩ := h
  exact .intro hout hin hpeer

theorem ShiftedLink.registerProbe (h : ShiftedLink shift u u') (txTs : Time) :
    ShiftedLink shift (u.registerProbe txTs) (u'.registerProbe txTs) := by
  unfold LinkDelays.registerProbe
  rw [h.pending]
  exact h.withPending _

theorem ShiftedLink.cancelProbe (h : ShiftedLink shift u u') (txTs : Time) :
    ShiftedLink shift (u.cancelProbe txTs) (u'.cancelProbe txTs) := by
  unfold LinkDelays.cancelProbe
  rw [h.pending]
  exact h.withPending _

theorem ShiftedLink.recordLoss (h : ShiftedLink shift u u') (t : DelayTunables)
    (received : Bool) : ShiftedLink shift (u.recordLoss t received)
      (u'.recordLoss t received) := by
  obtain ⟨hout, hin, hpeer⟩ := h
  exact .intro hout hin hpeer

theorem ShiftedLink.sweepProbes (h : ShiftedLink shift u u') (t : DelayTunables)
    (nowNs : Time) : ShiftedLink shift (u.sweepProbes t nowNs) (u'.sweepProbes t nowNs) := by
  have hswept : ShiftedLink shift
      (u.pending.foldl (fun u txTs =>
        if LinkDelays.expired nowNs txTs then LinkDelays.recordLoss t u false else u) u)
      (u.pending.foldl (fun u txTs =>
        if LinkDelays.expired nowNs txTs then LinkDelays.recordLoss t u false else u) u') := by
    refine foldl_rel h fun txTs _ v v' hv => ?_
    split
    · exact hv.recordLoss t false
    · exact hv
  unfold LinkDelays.sweepProbes
  rw [h.pending]
  exact hswept.withPending _

theorem ShiftedLink.staleInbound (h : ShiftedLink shift u u') (peerTx : Time) :
    u'.staleInbound (peerTx + shift) = u.staleInbound peerTx := by
  obtain ⟨-, -, hpeer⟩ := h
  unfold LinkDelays.staleInbound
  cases hhave : u.havePeerTx with
  | false => rfl
  | true =>
    simp only [hpeer hhave, add_le_add_iff_right, add_sub_add_right_eq_sub]

theorem ShiftedLink.observeInbound (h : ShiftedLink shift u u') (t : DelayTunables)
    {peerTx rxNs : Time}
    (hjump : u.staleInbound peerTx = false → ¬ u.owdIn.Jumps (rxNs - peerTx))
    (hjump' : u'.staleInbound (peerTx + shift) = false →
      ¬ u'.owdIn.Jumps (rxNs - (peerTx + shift))) :
    ShiftedLink shift (u.observeInbound t peerTx rxNs)
      (u'.observeInbound t (peerTx + shift) rxNs) := by
  have hstale := h.staleInbound peerTx
  unfold LinkDelays.observeInbound
  rw [hstale] at hjump' ⊢
  split
  · exact h
  · next hfresh =>
      replace hfresh := Bool.eq_false_iff.mpr hfresh
      obtain ⟨hout, hin, hpeer⟩ := h
      have hsample : rxNs - (peerTx + shift) = rxNs - peerTx + -shift := by ring
      exact .intro hout (hin.update t hsample (hjump hfresh) (hjump' hfresh)) fun _ => rfl

theorem ShiftedLink.observeEcho (h : ShiftedLink shift u u') (t : DelayTunables)
    {originTx peerRx : Time}
    (hjump : originTx ∈ u.pending → ¬ u.owdOut.Jumps (peerRx - originTx))
    (hjump' : originTx ∈ u'.pending → ¬ u'.owdOut.Jumps (peerRx + shift - originTx)) :
    ShiftedLink shift (u.observeEcho t originTx peerRx).2
      (u'.observeEcho t originTx (peerRx + shift)).2 := by
  unfold LinkDelays.observeEcho
  rw [h.pending] at hjump' ⊢
  split
  · next hmem =>
      apply ShiftedLink.recordLoss
      obtain ⟨hout, hin, hpeer⟩ := h
      have hsample : peerRx + shift - originTx = peerRx - originTx + shift := by ring
      exact .intro (hout.update t hsample (hjump hmem) (hjump' hmem)) hin hpeer
  · exact h

theorem ShiftedLink.observeProbe (h : ShiftedLink shift u u') (t : DelayTunables)
    {probe : ProbeTimes} {rxTs : Time} (hjump : NoJump u probe rxTs)
    (hjump' : NoJump u' (probe.shift shift) rxTs) :
    ShiftedLink shift (u.observeProbe t probe rxTs)
      (u'.observeProbe t (probe.shift shift) rxTs) := by
  obtain ⟨txTs, originTxTs, originRxTs⟩ := probe
  obtain ⟨hjumpIn, hjumpOut⟩ := hjump
  obtain ⟨hjumpIn', hjumpOut'⟩ := hjump'
  have hinbound := h.observeInbound t hjumpIn hjumpIn'
  -- an echo is for the other direction, which the probe itself does not change
  have hkeeps : ∀ (v : LinkDelays) (peerTx : Time),
      (v.observeInbound t peerTx rxTs).pending = v.pending ∧
        (v.observeInbound t peerTx rxTs).owdOut = v.owdOut := by
    intro v peerTx
    unfold LinkDelays.observeInbound
    split <;> exact ⟨rfl, rfl⟩
  cases originTxTs with
  | none => exact hinbound
  | some originTx =>
    cases originRxTs with
    | none => exact hinbound
    | some peerRx =>
      apply hinbound.observeEcho t
      · rw [(hkeeps u txTs).1, (hkeeps u txTs).2]
        exact hjumpOut originTx rfl peerRx rfl
      · rw [(hkeeps u' _).1, (hkeeps u' _).2]
        exact hjumpOut' originTx rfl (peerRx + shift) rfl

theorem ShiftedLink.ready (h : ShiftedLink shift u u') (t : DelayTunables) :
    u'.ready t = u.ready t := by
  obtain ⟨hout, hin, hpeer⟩ := h
  unfold LinkDelays.ready
  rw [← hout.ready t, ← hin.ready t]

/-- The delays of both directions, if there are any. -/
def DelaysNear (shift : Time) : Option (Time × Time) → Option (Time × Time) → Prop
  | some (out, inb), some (out', inb') => Near shift out out' ∧ Near (-shift) inb inb'
  | none, none => True
  | _, _ => False

theorem ShiftedLink.relDelays (h : ShiftedLink shift u u') (t : DelayTunables)
    (halike : ReadAlike t shift u u') :
    Go.Rel (fun r r' => DelaysNear shift r.1 r'.1 ∧ ShiftedLink shift r.2 r'.2)
      (u.relDelays t) (u'.relDelays t) := by
  have hready := h.ready t
  unfold LinkDelays.relDelays
  rw [hready]
  cases hcase : u.ready t with
  | false => exact .ok ⟨trivial, h⟩
  | true =>
    obtain ⟨hmoveOut, hmoveIn⟩ := halike hcase
    obtain ⟨hout, hin, hpeer⟩ := h
    refine (hout.stabilized t hmoveOut).bind fun r r' ⟨hnear, hfilter⟩ => ?_
    refine (hin.stabilized t hmoveIn).bind fun s s' ⟨hnear', hfilter'⟩ => ?_
    exact .ok ⟨⟨hnear, hnear'⟩, .intro hfilter hfilter' hpeer⟩

end Links

def LinkEvent.shift (shift : Time) : LinkEvent → LinkEvent
  | .observeProbe probe rxTs => .observeProbe (probe.shift shift) rxTs
  | event => event

/-- What the other run receives. -/
def NeighbourEvent.shift (shift : Time) : NeighbourEvent → NeighbourEvent
  | .onLink id event => .onLink id (event.shift shift)
  | event => event

section Runs

variable (t : DelayTunables) (shift : Time)

def bothRuns (runs : Go (Links × Links)) (event : NeighbourEvent) : Go (Links × Links) := do
  let (links, links') ← runs
  return (← event.apply t links, ← (event.shift shift).apply t links')

/-- No sample is taken for a jump of the clock in either run. -/
def NoJumps : Go (Links × Links) → NeighbourEvent → Prop
  | .ok (links, links'), .onLink id (.observeProbe probe rxTs) =>
    (∀ u ∈ links.lookup id, NoJump u probe rxTs) ∧
      ∀ u' ∈ links'.lookup id, NoJump u' (probe.shift shift) rxTs
  | _, _ => True

instance (runs : Go (Links × Links)) (event : NeighbourEvent) :
    Decidable (NoJumps shift runs event) := by
  unfold NoJumps
  split <;> infer_instance

/-- A link whose delays are read moves its medians together in both runs. -/
def ReadsAlike : Go (Links × Links) → NeighbourEvent → Prop
  | .ok (links, links'), .onLink id .relDelays =>
    ∀ u ∈ links.lookup id, ∀ u' ∈ links'.lookup id, ReadAlike t shift u u'
  | _, _ => True

instance (runs : Go (Links × Links)) (event : NeighbourEvent) :
    Decidable (ReadsAlike t shift runs event) := by
  unfold ReadsAlike
  split <;> infer_instance

/-- Both runs measure the same round-trip time up to two nanoseconds. -/
def SameRoundTrip (u u' : LinkDelays) : Prop :=
  Go.Rel (fun r r' => |r'.1 - r.1| ≤ 2) (u.stabilizedPing t) (u'.stabilizedPing t)

def outboundDelay (u : LinkDelays) : Option Time :=
  match u.dirScores t with
  | .ok (some (out, _), _) => some out
  | _ => none

/-- Links whose outbound delays differ by more than two nanoseconds in one run are in
the same order in the other. -/
def SameOrder (u v u' v' : LinkDelays) : Prop :=
  ∀ out ∈ outboundDelay t u, ∀ other ∈ outboundDelay t v,
    ∀ out' ∈ outboundDelay t u', ∀ other' ∈ outboundDelay t v',
      (out + 2 < other → out' < other') ∧ (out' + 2 < other' → out < other)

end Runs

section

variable {t : DelayTunables} {shift : Time} {links links' : Links} {u u' : LinkDelays}

/-- Both runs have the same links. -/
def ShiftedLinks (shift : Time) (links links' : Links) : Prop :=
  ∀ id, Option.Rel (ShiftedLink shift) (links.lookup id) (links'.lookup id)

theorem ShiftedLinks.link (h : ShiftedLinks shift links links') {id : LinkId}
    (hu : links.lookup id = some u) (hu' : links'.lookup id = some u') : ShiftedLink shift u u' := by
  have hid := h id
  rw [hu, hu'] at hid
  cases hid with
  | some hlink => exact hlink

theorem ShiftedLinks.insert
    (h : ShiftedLinks shift links links') (id : LinkId) (hlink : ShiftedLink shift u u') :
    ShiftedLinks shift (links.insert id u) (links'.insert id u') := by
  intro other
  rw [Table.lookup_insert_eq, Table.lookup_insert_eq]
  split
  · exact .some hlink
  · exact h other

theorem ShiftedLinks.erase (h : ShiftedLinks shift links links')
    (id : LinkId) : ShiftedLinks shift (links.erase id) (links'.erase id) := by
  intro other
  rw [Table.lookup_erase_eq, Table.lookup_erase_eq]
  split
  · exact .none
  · exact h other

theorem ShiftedLink.apply (h : ShiftedLink shift u u') (event : LinkEvent)
    (hcalm : ∀ probe rxTs, event = .observeProbe probe rxTs →
      NoJump u probe rxTs ∧ NoJump u' (probe.shift shift) rxTs)
    (halike : event = .relDelays → ReadAlike t shift u u') :
    Go.Rel (ShiftedLink shift) (event.apply t u) ((event.shift shift).apply t u') := by
  cases event with
  | renew now => exact .ok (h.renew t now)
  | registerProbe txTs => exact .ok (h.registerProbe txTs)
  | cancelProbe txTs => exact .ok (h.cancelProbe txTs)
  | sweepProbes nowNs => exact .ok (h.sweepProbes t nowNs)
  | observeProbe probe rxTs =>
    obtain ⟨hjump, hjump'⟩ := hcalm probe rxTs rfl
    exact .ok (h.observeProbe t hjump hjump')
  | relDelays => exact (h.relDelays t (halike rfl)).bind fun r r' hr => .ok hr.2

theorem ShiftedLinks.apply (h : ShiftedLinks shift links links')
    (event : NeighbourEvent) (hcalm : NoJumps shift (.ok (links, links')) event)
    (halike : ReadsAlike t shift (.ok (links, links')) event) :
    Go.Rel (ShiftedLinks shift) (event.apply t links)
      ((event.shift shift).apply t links') := by
  cases event with
  | addLink id => exact .ok (h.insert id (shiftedLink_new shift))
  | removeLink id => exact .ok (h.erase id)
  | onLink id event =>
    have hid := h id
    simp only [NeighbourEvent.shift, NeighbourEvent.apply]
    generalize hlink : links.lookup id = link at hid
    generalize hlink' : links'.lookup id = link' at hid
    cases hid with
    | none => exact .ok h
    | @some u u' hshifted =>
      have hstep := hshifted.apply (t := t) event
        (by
          rintro probe rxTs rfl
          exact ⟨hcalm.1 u hlink, hcalm.2 u' hlink'⟩)
        (by
          rintro rfl
          exact halike u hlink u' hlink')
      exact hstep.bind fun v v' hv => .ok (h.insert id hv)

theorem ShiftedLinks.bothRuns (h : ShiftedLinks shift links links')
    (event : NeighbourEvent) (hcalm : NoJumps shift (.ok (links, links')) event)
    (halike : ReadsAlike t shift (.ok (links, links')) event) {next next' : Links}
    (hstep : bothRuns t shift (.ok (links, links')) event = .ok (next, next')) :
    ShiftedLinks shift next next' := by
  have happly := h.apply event hcalm halike
  simp only [State.bothRuns, Go.ok_bind] at hstep
  generalize event.apply t links = r at happly hstep
  generalize (event.shift shift).apply t links' = r' at happly hstep
  cases happly with
  | ok hnext =>
    cases hstep
    exact hnext
  | panic p => cases hstep

/-- Along a run, the links stay shifted against each other. -/
theorem shiftedLinks_run {events : List NeighbourEvent}
    (hcalm : Transitions.Along (bothRuns t shift) (NoJumps shift) (.ok (∅, ∅)) events)
    (halike : Transitions.Along (bothRuns t shift) (ReadsAlike t shift) (.ok (∅, ∅)) events)
    (hreached : Transitions.run (bothRuns t shift) (.ok (∅, ∅)) events = .ok (links, links')) :
    ShiftedLinks shift links links' := by
  let Inv := fun runs : Go (Links × Links) =>
    ∀ links links', runs = .ok (links, links') → ShiftedLinks shift links links'
  have hinv : Inv (Transitions.run (bothRuns t shift) (.ok (∅, ∅)) events) := by
    refine Transitions.run_invariant ?_ ?_ (hcalm.and halike)
    · intro runs event hruns hmeets next next' hstep
      obtain _ | ⟨links, links'⟩ := runs
      · cases hstep
      · exact (hruns links links' rfl).bothRuns event hmeets.1 hmeets.2 hstep
    · intro links links' hinit
      cases hinit
      exact fun id => .none
  exact hinv links links' hreached

theorem ShiftedLink.sameRoundTrip (h : ShiftedLink shift u u')
    (halike : ReadAlike t shift u u') : SameRoundTrip t u u' := by
  refine (h.relDelays t halike).bind fun r r' hr => ?_
  obtain ⟨delays, v⟩ := r
  obtain ⟨delays', v'⟩ := r'
  obtain ⟨hnear, -⟩ := hr
  cases delays with
  | none =>
    cases delays' with
    | none => exact .ok (by simp)
    | some _ => exact hnear.elim
  | some d =>
    cases delays' with
    | none => exact hnear.elim
    | some d' =>
      obtain ⟨hout, hin⟩ := hnear
      exact .ok (near_sum hout hin)

theorem ShiftedLink.lossRate (h : ShiftedLink shift u u') : u'.lossRate t = u.lossRate t := by
  obtain ⟨-, -, -⟩ := h
  rfl

theorem lossRate_relDelays {v : LinkDelays} {delays : Option (Time × Time)}
    (h : u.relDelays t = .ok (delays, v)) : v.lossRate t = u.lossRate t := by
  obtain ⟨_, _, rfl⟩ | ⟨_, _, _, _, _, _, _, _, rfl⟩ := LinkDelays.relDelays_cases h
  · rfl
  · rfl

/-- Without loss the outbound delay is the one that is read. -/
theorem outboundDelay_noLoss (hloss : u.lossRate t = 0) {out : Time} (h : out ∈ outboundDelay t u) :
    ∃ inb v, u.relDelays t = .ok (some (out, inb), v) := by
  unfold outboundDelay LinkDelays.dirScores at h
  cases hread : u.relDelays t with
  | error p => simp [hread, bind, Except.bind] at h
  | ok r =>
    obtain ⟨delays, v⟩ := r
    cases delays with
    | none =>
      rw [hread] at h
      cases h
    | some d =>
      have hpen : ¬ 0 < min (v.lossRate t) t.lossCap := by
        rw [lossRate_relDelays hread, hloss]
        exact not_lt.mpr (min_le_left _ _)
      simp only [hread, Go.ok_bind, if_neg hpen, add_zero] at h
      cases h
      exact ⟨d.2, v, rfl⟩

theorem ShiftedLink.outboundDelay (h : ShiftedLink shift u u')
    (halike : ReadAlike t shift u u') (hloss : u.lossRate t = 0) {out out' : Time}
    (hout : out ∈ outboundDelay t u) (hout' : out' ∈ outboundDelay t u') :
    Near shift out out' := by
  obtain ⟨inb, v, hread⟩ := outboundDelay_noLoss hloss hout
  obtain ⟨inb', v', hread'⟩ := outboundDelay_noLoss (h.lossRate.trans hloss) hout'
  have hrel := h.relDelays t halike
  rw [hread, hread'] at hrel
  cases hrel with
  | ok hr => exact hr.1.1

end

/-- Both runs measure the same, as long as the medians of the links move together. -/
theorem measurement_ignores_offset (t : DelayTunables) (shift : Time)
    (events : List NeighbourEvent) {links links' : Links}
    (hcalm : Transitions.Along (bothRuns t shift) (NoJumps shift) (.ok (∅, ∅)) events)
    (halike : Transitions.Along (bothRuns t shift) (ReadsAlike t shift) (.ok (∅, ∅)) events)
    (hreached : Transitions.run (bothRuns t shift) (.ok (∅, ∅)) events = .ok (links, links')) :
    (∀ id u, links.lookup id = some u → ∃ u', links'.lookup id = some u' ∧
      u'.ready t = u.ready t ∧ (ReadAlike t shift u u' → SameRoundTrip t u u')) ∧
    ∀ id id' u v u' v', links.lookup id = some u → links.lookup id' = some v →
      links'.lookup id = some u' → links'.lookup id' = some v' →
      ReadAlike t shift u u' → ReadAlike t shift v v' →
      u.lossRate t = 0 → v.lossRate t = 0 → SameOrder t u v u' v' := by
  have hshifted := shiftedLinks_run hcalm halike hreached
  constructor
  · intro id u hu
    have hid := hshifted id
    rw [hu] at hid
    generalize hu' : links'.lookup id = link' at hid
    cases hid with
    | some h => exact ⟨_, rfl, h.ready t, h.sameRoundTrip⟩
  · intro id id' u v u' v' hu hv hu' hv' hread hread' hloss hloss' out hout other hother out' hout'
      other' hother'
    exact near_order ((hshifted.link hu hu').outboundDelay hread hloss hout hout')
      ((hshifted.link hv hv').outboundDelay hread' hloss' hother hother')

section Sample

/-- A probe and its reply, with the given relative delays in the first run. -/
def exchange (id : LinkId) (now out inb : Time) : List NeighbourEvent :=
  [.onLink id (.registerProbe now), .onLink id (.renew (now + out + inb)),
    .onLink id (.observeProbe ⟨now + out, some now, some (now + out)⟩ (now + out + inb))]

/-- One exchange a second, the first of them at the given one. -/
def exchanges (id : LinkId) (start : Nat) (outs : List Time) (inb : Time) : List NeighbourEvent :=
  (outs.zipIdx start).flatMap fun (out, i) => exchange id (i * 1000000000) out inb

def oneSecond : Time := 1000000000

def shortWindow : DelayTunables :=
  {defaultDelayTunables with windowSamples := 5, minimumConfidenceWindow := 3}

/-- Two links with constant delays. -/
def steadyLinks : List NeighbourEvent :=
  [.addLink 1, .onLink 1 (.renew 9000000000), .addLink 2, .onLink 2 (.renew 29000000000)] ++
    exchanges 1 10 (.replicate 3 1000000) 2000000 ++ [.onLink 1 .relDelays] ++
    exchanges 2 30 (.replicate 3 3000000) 2000000

def steadyRuns : Links × Links :=
  (Transitions.run (bothRuns shortWindow oneSecond) (.ok (∅, ∅)) steadyLinks).toOption.getD
    (∅, ∅)

def linkIn (links : Links) (id : LinkId) : LinkDelays := (links.lookup id).getD .new

/-- Links with constant delays are measured and ordered alike. -/
theorem measurement_ignores_offset_steady : (linkIn steadyRuns.1 1).ready shortWindow = true ∧
      SameRoundTrip shortWindow (linkIn steadyRuns.1 1) (linkIn steadyRuns.2 1) ∧
      SameOrder shortWindow (linkIn steadyRuns.1 1) (linkIn steadyRuns.1 2)
        (linkIn steadyRuns.2 1) (linkIn steadyRuns.2 2) := by
  obtain ⟨hround, horder⟩ :=
    measurement_ignores_offset shortWindow oneSecond steadyLinks (by decide +kernel)
      (by decide +kernel)
      (by decide +kernel : _ = Except.ok (steadyRuns.1, steadyRuns.2))
  refine ⟨by decide +kernel, ?_, ?_⟩
  · obtain ⟨u', hu', -, hsame⟩ := hround 1 (linkIn steadyRuns.1 1) (by decide +kernel)
    have hlink : steadyRuns.2.lookup 1 = some (linkIn steadyRuns.2 1) := by decide +kernel
    rw [Option.some.inj (hu'.symm.trans hlink)] at hsame
    exact hsame (by decide +kernel)
  · exact horder 1 2 _ _ _ _ (by decide +kernel) (by decide +kernel) (by decide +kernel)
      (by decide +kernel) (by decide +kernel) (by decide +kernel) (by decide +kernel)
      (by decide +kernel)

/-- Outbound delays around zero, where a filter keeps the zero it starts with. -/
def aroundZero : List NeighbourEvent :=
  [.addLink 1, .onLink 1 (.renew 9000000000)] ++
    exchanges 1 10 (-10000 :: .replicate 14 100000) 2000000

/-- Delays that are cut off to the median in one run and above it in the other. -/
def justAbove : List NeighbourEvent :=
  [.addLink 1, .onLink 1 (.renew 9000000000)] ++
    exchanges 1 10 (.replicate 3 1000000) 2000000 ++ [.onLink 1 .relDelays] ++
    exchanges 1 13 (.replicate 2 1000001 ++ .replicate 3 2000000) 2000000

/-- The round-trip times of a link that is ready in both runs. -/
def roundTrips (t : DelayTunables) (shift : Time) (events : List NeighbourEvent)
    (id : LinkId) : Option (Time × Time) := do
  let (links, links') ←
    (Transitions.run (bothRuns t shift) (.ok (∅, ∅)) events).toOption
  let u ← links.lookup id
  let u' ← links'.lookup id
  guard (u.ready t ∧ u'.ready t)
  let (rtt, _) ← (u.stabilizedPing t).toOption
  let (rtt', _) ← (u'.stabilizedPing t).toOption
  return (rtt, rtt')

/-- In both examples the offset changes the measured round-trip time by more than two
nanoseconds, although no sample is taken for a jump of the clock. -/
theorem offset_changes_round_trip :
    (Transitions.Along (bothRuns defaultDelayTunables oneSecond) (NoJumps oneSecond)
        (.ok (∅, ∅)) aroundZero ∧
      roundTrips defaultDelayTunables oneSecond aroundZero 1 = some (2000000, 2040298)) ∧
    Transitions.Along (bothRuns shortWindow (-oneSecond)) (NoJumps (-oneSecond))
        (.ok (∅, ∅)) justAbove ∧
      roundTrips shortWindow (-oneSecond) justAbove 1 = some (3000000, 3083601) := by
  refine ⟨⟨?_, ?_⟩, ?_, ?_⟩ <;> decide +kernel

end Sample

end Nylon.State
