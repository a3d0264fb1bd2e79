import Nylon.Lib.Transitions
import Nylon.State.LinkDelays

/-!
The probes of one link (`RegisterProbe`, `CancelProbe`, `SweepProbes`, `ObserveEcho` and
`Renew` of `state/endpoint.go`, with the timestamps of `core/nylon_endpoints.go`). A ledger
beside the link tells the probes apart by the order in which they were registered, and
notes what became of each; the link's list of pending timestamps and its loss estimate are
what the ledger says.
-/

namespace Nylon.Core

open List Nylon.State

/-- `probeTimestampAllocator.next`: the timestamp, which is also the new last one. -/
def probeTimestampNext (last now : Int64) : Int64 := max now (last + 1)

/-- The timestamps increase, unless the next one wraps around. -/
theorem lt_probeTimestampNext {last : Int64} (h : last ≠ .maxValue) (now : Int64) :
    last.toInt < (probeTimestampNext last now).toInt := by
  have hmax : last.toInt ≠ 2 ^ 63 - 1 := fun heq => h (Int64.toInt_inj.mp heq)
  have hbounds := And.intro last.le_toInt last.toInt_lt
  have hnext : (last + 1).toInt = last.toInt + 1 := by
    rw [Int64.toInt_add, Int.bmod_eq_of_le] <;> simp <;> omega
  show last.toInt < (if now ≤ last + 1 then last + 1 else now).toInt
  split
  · omega
  · next hle =>
    rw [Int64.le_iff_toInt_le] at hle
    omega

inductive ProbeOutcome where
  | accepted
  | lost
  | cancelled
  | discarded
  deriving DecidableEq, Repr

/-- The sample of the loss estimate that an outcome stands for. -/
def ProbeOutcome.sample : ProbeOutcome → Option Bool
  | .accepted => some true
  | .lost => some false
  | .cancelled => none
  | .discarded => none

/-- The timestamps of the registered probes, the probes that are pending, and the outcomes
of the others, from before the last reset of the link and since then. -/
structure Ledger where
  times : List Time
  pending : List (Nat × Time)
  earlier : List (Nat × ProbeOutcome)
  recent : List (Nat × ProbeOutcome)
  deriving DecidableEq, Repr

namespace Ledger

def empty : Ledger := ⟨[], [], [], []⟩

section

variable (l : Ledger)

def outcomes : List (Nat × ProbeOutcome) := l.earlier ++ l.recent

def samples : List Bool := l.recent.filterMap fun entry => entry.2.sample

/-- How many probes had an outcome since the last reset. -/
def count (outcome : ProbeOutcome) : Nat := l.recent.countP fun entry => entry.2 = outcome

/-- The probes that were not answered, lost or cancelled, in order. -/
def unresolved : List Nat :=
  (range l.times.length).filter fun i =>
    l.outcomes.all fun entry => entry.1 ≠ i || entry.2 = .discarded

def issue (txTs : Time) : Ledger :=
  {l with
    times := l.times ++ [txTs]
    pending := l.pending ++ [(l.times.length, txTs)]}

/-- Some of the pending probes have an outcome. -/
def settle (gone kept : List (Nat × Time)) (outcome : ProbeOutcome) : Ledger :=
  {l with
    pending := kept
    recent := l.recent ++ gone.map fun probe => (probe.1, outcome)}

def register (txTs : Time) : Ledger :=
  let l := l.issue txTs
  let excess := l.pending.length - pendingProbeCap
  l.settle (l.pending.take excess) (l.pending.drop excess) .discarded

/-- The first pending probe with a timestamp has an outcome. -/
def settleFirst (txTs : Time) (outcome : ProbeOutcome) : Ledger :=
  l.settle (l.pending.find? fun probe => probe.2 == txTs).toList
    (l.pending.eraseP fun probe => probe.2 == txTs) outcome

def expire (nowNs : Time) : Ledger :=
  l.settle (l.pending.filter fun probe => LinkDelays.expired nowNs probe.2)
    (l.pending.filter fun probe => !LinkDelays.expired nowNs probe.2) .lost

def reset : Ledger :=
  let l := l.settle l.pending [] .discarded
  {l with earlier := l.earlier ++ l.recent, recent := []}

end

/-- Every registered probe is pending or has one outcome; the pending ones stand in the
order of their registration, with their timestamps, and after all that were discarded. -/
structure Balanced (l : Ledger) : Prop where
  once : (l.pending.map Prod.fst ++ l.outcomes.map Prod.fst).Perm (range l.times.length)
  ordered : (l.pending.map Prod.fst).Pairwise (· < ·)
  discarded : ∀ i, (i, ProbeOutcome.discarded) ∈ l.outcomes → ∀ probe ∈ l.pending, i < probe.1
  stamped : ∀ probe ∈ l.pending, l.times[probe.1]? = some probe.2

theorem balanced_empty : Balanced empty :=
  ⟨Perm.refl _, Pairwise.nil, nofun, nofun⟩

section

variable {l : Ledger} (h : Balanced l)

include h

theorem Balanced.lt_of_pending {probe : Nat × Time} (hprobe : probe ∈ l.pending) :
    probe.1 < l.times.length := by
  rw [← mem_range, ← h.once.mem_iff]
  exact mem_append_left _ (mem_map_of_mem hprobe)

theorem Balanced.lt_of_outcome {entry : Nat × ProbeOutcome} (hentry : entry ∈ l.outcomes) :
    entry.1 < l.times.length := by
  rw [← mem_range, ← h.once.mem_iff]
  exact mem_append_right _ (mem_map_of_mem hentry)

theorem Balanced.issue (txTs : Time) : Balanced (l.issue txTs) := by
  refine ⟨?_, ?_, ?_, ?_⟩
  · show ((l.pending ++ [(l.times.length, txTs)]).map Prod.fst ++ l.outcomes.map Prod.fst).Perm
      (range (l.times ++ [txTs]).length)
    rw [length_append, length_singleton, range_succ, map_append, append_assoc]
    refine Perm.trans ?_ (h.once.append_right [l.times.length])
    rw [append_assoc]
    exact perm_append_comm.append_left _
  · show ((l.pending ++ [(l.times.length, txTs)]).map Prod.fst).Pairwise (· < ·)
    rw [map_append, pairwise_append]
    refine ⟨h.ordered, pairwise_singleton _ _, ?_⟩
    intro i hi j hj
    obtain ⟨probe, hprobe, rfl⟩ := mem_map.mp hi
    rw [mem_singleton.mp hj]
    exact h.lt_of_pending hprobe
  · intro i hi probe hprobe
    obtain hold | hnew := mem_append.mp hprobe
    · exact h.discarded i hi probe hold
    · rw [mem_singleton.mp hnew]
      exact h.lt_of_outcome hi
  · intro probe hprobe
    show (l.times ++ [txTs])[probe.1]? = some probe.2
    obtain hold | hnew := mem_append.mp hprobe
    · rw [getElem?_append_left (h.lt_of_pending hold)]
      exact h.stamped probe hold
    · rw [mem_singleton.mp hnew]
      exact getElem?_concat_length

/-- The one rule for all outcomes: the probes that leave the list are noted, the others stay
as they are, and what is discarded is older than what stays. -/
theorem Balanced.settle {gone kept : List (Nat × Time)} {outcome : ProbeOutcome}
    (hperm : l.pending.Perm (gone ++ kept)) (hsub : kept.Sublist l.pending)
    (holder : outcome = .discarded → ∀ old ∈ gone, ∀ probe ∈ kept, old.1 < probe.1) :
    Balanced (l.settle gone kept outcome) := by
  have houtcomes : (l.settle gone kept outcome).outcomes =
      l.outcomes ++ gone.map fun probe => (probe.1, outcome) := (append_assoc _ _ _).symm
  refine ⟨?_, ?_, ?_, ?_⟩
  · have hnames : (l.settle gone kept outcome).outcomes.map Prod.fst =
        l.outcomes.map Prod.fst ++ gone.map Prod.fst := by
      rw [houtcomes, map_append, map_map]
      rfl
    rw [hnames]
    show (kept.map Prod.fst ++ _).Perm (range l.times.length)
    refine Perm.trans ?_ h.once
    have hpending := (hperm.map Prod.fst).symm.append_right (l.outcomes.map Prod.fst)
    rw [map_append] at hpending
    refine Perm.trans ?_ hpending
    rw [← append_assoc]
    exact perm_append_comm.trans (by rw [append_assoc])
  · exact h.ordered.sublist (hsub.map Prod.fst)
  · intro i hi probe hprobe
    rw [houtcomes] at hi
    obtain hold | hnew := mem_append.mp hi
    · exact h.discarded i hold probe (hsub.subset hprobe)
    · obtain ⟨old, hmem, heq⟩ := mem_map.mp hnew
      cases heq
      exact holder rfl old hmem probe hprobe
  · intro probe hprobe
    exact h.stamped probe (hsub.subset hprobe)

theorem Balanced.register (txTs : Time) : Balanced (l.register txTs) := by
  have hissued := h.issue txTs
  refine hissued.settle ?_ (drop_sublist _ _) fun _ => ?_
  · rw [take_append_drop]
  · intro old hold probe hprobe
    have hordered := hissued.ordered
    rw [← take_append_drop ((l.issue txTs).pending.length - pendingProbeCap)
      (l.issue txTs).pending, map_append, pairwise_append] at hordered
    exact hordered.2.2 _ (mem_map_of_mem hold) _ (mem_map_of_mem hprobe)

theorem Balanced.settleFirst (txTs : Time) {outcome : ProbeOutcome}
    (houtcome : outcome ≠ .discarded) : Balanced (l.settleFirst txTs outcome) := by
  refine h.settle ?_ eraseP_sublist fun hdiscarded => absurd hdiscarded houtcome
  generalize l.pending = pending
  induction pending with
  | nil => exact Perm.refl _
  | cons probe rest ih =>
    rw [find?_cons, eraseP_cons]
    cases probe.2 == txTs with
    | true => exact Perm.refl _
    | false => exact (ih.cons probe).trans perm_middle.symm

theorem Balanced.expire (nowNs : Time) : Balanced (l.expire nowNs) :=
  h.settle (filter_append_perm _ _).symm filter_sublist nofun

theorem Balanced.reset : Balanced l.reset := by
  have hsettled : Balanced (l.settle l.pending [] .discarded) :=
    h.settle (by rw [append_nil]) (nil_sublist _) fun _ _ _ _ => nofun
  refine ⟨?_, Pairwise.nil, fun _ _ _ => nofun, nofun⟩
  have houtcomes : l.reset.outcomes = (l.settle l.pending [] .discarded).outcomes :=
    append_nil _
  rw [houtcomes]
  exact hsettled.once

theorem Balanced.mem_unresolved_of_pending {i : Nat} (hi : i ∈ l.pending.map Prod.fst) :
    i ∈ l.unresolved := by
  obtain ⟨probe, hprobe, rfl⟩ := mem_map.mp hi
  have hnodup := h.once.nodup_iff.mpr nodup_range
  refine mem_filter.mpr ⟨mem_range.mpr (h.lt_of_pending hprobe), all_eq_true.mpr ?_⟩
  intro entry hentry
  have hne : entry.1 ≠ probe.1 := by
    intro heq
    exact (nodup_append.mp hnodup).2.2 _ hi _ (mem_map_of_mem hentry) heq.symm
  simp only [hne, ne_eq, not_false_eq_true, decide_true, Bool.true_or]

theorem Balanced.discarded_of_unresolved {i : Nat} (hi : i ∈ l.unresolved)
    (hgone : i ∉ l.pending.map Prod.fst) : (i, ProbeOutcome.discarded) ∈ l.outcomes := by
  obtain ⟨hrange, hall⟩ := mem_filter.mp hi
  obtain hpending | hsettled := mem_append.mp (h.once.mem_iff.mpr hrange)
  · exact absurd hpending hgone
  · obtain ⟨⟨j, outcome⟩, hentry, rfl⟩ := mem_map.mp hsettled
    have hdiscarded := all_eq_true.mp hall _ hentry
    simp only [ne_eq, not_true_eq_false, decide_false, Bool.false_or,
      decide_eq_true_eq] at hdiscarded
    rw [← hdiscarded]
    exact hentry

/-- The pending probes are the most recent unresolved ones. -/
theorem Balanced.pending_suffix : l.pending.map Prod.fst <:+ l.unresolved := by
  have hsorted : l.unresolved.Pairwise (· < ·) := pairwise_lt_range.filter _
  refine ⟨l.unresolved.filter (· ∉ l.pending.map Prod.fst), ?_⟩
  refine Pairwise.eq_of_mem_iff ?_ hsorted fun i => ?_
  · rw [pairwise_append]
    refine ⟨hsorted.filter _, h.ordered, ?_⟩
    intro i hi j hj
    obtain ⟨hunresolved, hgone⟩ := mem_filter.mp hi
    obtain ⟨probe, hprobe, rfl⟩ := mem_map.mp hj
    exact h.discarded i (h.discarded_of_unresolved hunresolved (of_decide_eq_true hgone))
      probe hprobe
  · rw [mem_append, mem_filter, decide_eq_true_eq]
    constructor
    · rintro (⟨hunresolved, _⟩ | hpending)
      · exact hunresolved
      · exact h.mem_unresolved_of_pending hpending
    · intro hunresolved
      by_cases hpending : i ∈ l.pending.map Prod.fst
      · exact .inr hpending
      · exact .inl ⟨hunresolved, hpending⟩

end

end Ledger

/-- What happens to a link, and the timestamps drawn for probes on other links. -/
inductive ProbeEvent where
  | draw (reading : Int64)
  | registerProbe (reading : Int64)
  | cancelProbe (txTs : Time)
  | sweepProbes (nowNs : Time)
  | observeEcho (originTx peerRx : Time)
  | renew (now : Time)
  deriving DecidableEq, Repr

/-- The last timestamp of the allocator, a link, and the ledger of its probes. -/
structure ProbeRun where
  last : Int64
  link : LinkDelays
  ledger : Ledger
  deriving DecidableEq

namespace ProbeRun

def start : ProbeRun := ⟨0, .new, .empty⟩

def step (t : DelayTunables) (r : ProbeRun) : ProbeEvent → ProbeRun
  | .draw reading => {r with last := probeTimestampNext r.last reading}
  | .registerProbe reading =>
    let txTs := probeTimestampNext r.last reading
    ⟨txTs, r.link.registerProbe txTs.toInt, r.ledger.register txTs.toInt⟩
  | .cancelProbe txTs =>
    {r with
      link := r.link.cancelProbe txTs
      ledger := r.ledger.settleFirst txTs .cancelled}
  | .sweepProbes nowNs =>
    {r with
      link := r.link.sweepProbes t nowNs
      ledger := r.ledger.expire nowNs}
  | .observeEcho originTx peerRx =>
    let (accepted, link) := r.link.observeEcho t originTx peerRx
    {r with
      link := link
      ledger := if accepted then r.ledger.settleFirst originTx .accepted else r.ledger}
  | .renew now =>
    {r with
      link := r.link.renew t now
      ledger := if r.link.isActive t now then r.ledger else r.ledger.reset}

def run (t : DelayTunables) (events : List ProbeEvent) : ProbeRun :=
  Lib.Transitions.run (step t) start events

end ProbeRun

def lossEstimate (u : LinkDelays) : ℚ × Bool × Int := (u.lossEWMA, u.lossInit, u.lossSamples)

theorem lossEstimate_recordLoss (t : DelayTunables) {u v : LinkDelays}
    (h : lossEstimate u = lossEstimate v) (received : Bool) :
    lossEstimate (u.recordLoss t received) = lossEstimate (v.recordLoss t received) := by
  obtain ⟨hewma, hinit, hsamples⟩ : u.lossEWMA = v.lossEWMA ∧ u.lossInit = v.lossInit ∧
      u.lossSamples = v.lossSamples := by simpa [lossEstimate] using h
  simp only [lossEstimate, LinkDelays.recordLoss, hewma, hinit, hsamples]

theorem lossEstimate_foldl (t : DelayTunables) {u v : LinkDelays}
    (h : lossEstimate u = lossEstimate v) (samples : List Bool) :
    lossEstimate (samples.foldl (LinkDelays.recordLoss t) u) =
      lossEstimate (samples.foldl (LinkDelays.recordLoss t) v) := by
  induction samples generalizing u v with
  | nil => exact h
  | cons received rest ih => exact ih (lossEstimate_recordLoss t h received)

/-- The count of the samples stops at the confidence window. -/
theorem lossSamples_foldl (t : DelayTunables) (samples : List Bool) :
    (samples.foldl (LinkDelays.recordLoss t) .new).lossSamples =
      min (samples.length : Int) (max t.minimumConfidenceWindow 0) := by
  induction samples using List.reverseRecOn with
  | nil =>
    show (0 : Int) = _
    simp
  | append_singleton samples received ih =>
    rw [foldl_append, length_append]
    show (if (samples.foldl (LinkDelays.recordLoss t) .new).lossSamples <
      t.minimumConfidenceWindow then _ else _) = _
    rw [ih]
    push_cast
    split <;> simp only [length_singleton] <;> omega

namespace Ledger

theorem length_samples (l : Ledger) : l.samples.length = l.count .accepted + l.count .lost := by
  unfold samples count
  rw [length_filterMap_eq_countP]
  induction l.recent with
  | nil => rfl
  | cons entry rest ih =>
    obtain ⟨i, outcome⟩ := entry
    rw [countP_cons, countP_cons, countP_cons, ih]
    cases outcome <;> simp [ProbeOutcome.sample] <;> omega

theorem samples_settle (l : Ledger) (gone kept : List (Nat × Time)) {outcome : ProbeOutcome}
    {received : Bool} (h : outcome.sample = some received) :
    (l.settle gone kept outcome).samples = l.samples ++ gone.map fun _ => received := by
  rw [samples, settle, filterMap_append, filterMap_map, ← filterMap_eq_map]
  simp only [Function.comp_def, h]
  rfl

theorem samples_settle_of_none (l : Ledger) (gone kept : List (Nat × Time))
    {outcome : ProbeOutcome} (h : outcome.sample = none) :
    (l.settle gone kept outcome).samples = l.samples := by
  rw [samples, settle, filterMap_append, filterMap_map]
  simp only [Function.comp_def, h, filterMap_none, append_nil]
  rfl

end Ledger

/-- The link agrees with the ledger. -/
structure Accounted (t : DelayTunables) (r : ProbeRun) : Prop where
  balanced : r.ledger.Balanced
  pending : r.link.pending = r.ledger.pending.map Prod.snd
  loss : lossEstimate r.link = lossEstimate (r.ledger.samples.foldl (LinkDelays.recordLoss t) .new)
  bounded : r.link.pending.length ≤ pendingProbeCap

theorem accounted_start (t : DelayTunables) : Accounted t .start :=
  ⟨Ledger.balanced_empty, rfl, rfl, Nat.zero_le _⟩

section

variable {t : DelayTunables} {r : ProbeRun} (h : Accounted t r)

include h

theorem Accounted.pending_length : r.link.pending.length = r.ledger.pending.length := by
  rw [h.pending, length_map]

theorem Accounted.registerProbe (last : Int64) (txTs : Time) :
    Accounted t ⟨last, r.link.registerProbe txTs, r.ledger.register txTs⟩ := by
  have hpending : (r.link.registerProbe txTs).pending = (r.link.pending ++ [txTs]).drop
      ((r.link.pending ++ [txTs]).length - pendingProbeCap) := by
    simp only [LinkDelays.registerProbe]
  have hledger : (r.ledger.register txTs).pending =
      (r.ledger.pending ++ [(r.ledger.times.length, txTs)]).drop
        ((r.ledger.pending ++ [(r.ledger.times.length, txTs)]).length - pendingProbeCap) := by
    simp only [Ledger.register, Ledger.settle, Ledger.issue]
  have hsamples : (r.ledger.register txTs).samples = r.ledger.samples := by
    rw [Ledger.register, Ledger.samples_settle_of_none _ _ _ rfl]
    rfl
  refine ⟨h.balanced.register txTs, ?_, ?_, ?_⟩
  · rw [hpending, hledger, map_drop, map_append, ← h.pending, length_append, length_append,
      h.pending_length]
    rfl
  · rw [hsamples, ← h.loss]
    simp only [lossEstimate, LinkDelays.registerProbe]
  · rw [hpending, length_drop]
    omega

theorem Accounted.settleFirst_pending (txTs : Time) (outcome : ProbeOutcome) :
    r.link.pending.erase txTs = (r.ledger.settleFirst txTs outcome).pending.map Prod.snd := by
  rw [h.pending, erase_eq_eraseP', eraseP_map]
  rfl

theorem Accounted.cancelProbe (txTs : Time) : Accounted t {r with
      link := r.link.cancelProbe txTs
      ledger := r.ledger.settleFirst txTs .cancelled} := by
  refine ⟨h.balanced.settleFirst txTs nofun, h.settleFirst_pending txTs _, ?_, ?_⟩
  · rw [Ledger.settleFirst, Ledger.samples_settle_of_none _ _ _ rfl]
    exact h.loss
  · exact (erase_sublist.length_le).trans h.bounded

theorem Accounted.sweepProbes (nowNs : Time) : Accounted t {r with
      link := r.link.sweepProbes t nowNs
      ledger := r.ledger.expire nowNs} := by
  refine ⟨h.balanced.expire nowNs, ?_, ?_, ?_⟩
  · show r.link.pending.filter _ = map _ (filter _ _)
    rw [h.pending, filter_map]
    rfl
  · have hgone : r.link.pending.filter (LinkDelays.expired nowNs) =
        (r.ledger.pending.filter fun probe => LinkDelays.expired nowNs probe.2).map Prod.snd := by
      rw [h.pending, filter_map]
      rfl
    have hswept : lossEstimate (r.link.sweepProbes t nowNs) =
        lossEstimate ((r.link.pending.filter (LinkDelays.expired nowNs)).foldl
          (fun u _ => u.recordLoss t false) r.link) := by
      rw [foldl_filter]
      rfl
    rw [hswept, hgone, foldl_map, Ledger.expire, Ledger.samples_settle _ _ _ rfl, foldl_append,
      ← lossEstimate_foldl t h.loss, foldl_map]
  · exact (filter_sublist.length_le).trans h.bounded

theorem Accounted.observeEcho {originTx : Time} (hpending : originTx ∈ r.link.pending)
    (peerRx : Time) :
    Accounted t {r with
      link := (r.link.observeEcho t originTx peerRx).2
      ledger := r.ledger.settleFirst originTx .accepted} := by
  have hecho : (r.link.observeEcho t originTx peerRx).2 = LinkDelays.recordLoss t {r.link with
        pending := r.link.pending.erase originTx
        owdOut := r.link.owdOut.update t (peerRx - originTx)} true := by
    rw [LinkDelays.observeEcho, if_pos hpending]
  rw [hecho]
  refine ⟨h.balanced.settleFirst originTx nofun, h.settleFirst_pending originTx _, ?_, ?_⟩
  · obtain ⟨probe, hprobe⟩ : ∃ probe,
        r.ledger.pending.find? (fun probe => probe.2 == originTx) = some probe := by
      rw [h.pending] at hpending
      obtain ⟨probe, hmem, heq⟩ := mem_map.mp hpending
      exact Option.isSome_iff_exists.mp (find?_isSome.mpr ⟨probe, hmem, beq_iff_eq.mpr heq⟩)
    rw [Ledger.settleFirst, Ledger.samples_settle _ _ _ rfl, hprobe, foldl_append]
    exact lossEstimate_recordLoss t h.loss true
  · exact (erase_sublist.length_le).trans h.bounded

theorem Accounted.renew (now : Time) : Accounted t {r with
      link := r.link.renew t now
      ledger := if r.link.isActive t now then r.ledger else r.ledger.reset} := by
  rw [LinkDelays.renew]
  split
  · exact ⟨h.balanced, h.pending, h.loss, h.bounded⟩
  · exact ⟨h.balanced.reset, rfl, rfl, Nat.zero_le _⟩

/-- Every operation keeps the link and the ledger in agreement. -/
theorem Accounted.step (event : ProbeEvent) : Accounted t (r.step t event) := by
  cases event with
  | draw reading => exact ⟨h.balanced, h.pending, h.loss, h.bounded⟩
  | registerProbe reading => exact h.registerProbe _ _
  | cancelProbe txTs => exact h.cancelProbe txTs
  | sweepProbes nowNs => exact h.sweepProbes nowNs
  | observeEcho originTx peerRx =>
    by_cases hpending : originTx ∈ r.link.pending
    · have haccepted : (r.link.observeEcho t originTx peerRx).1 = true := by
        rw [LinkDelays.observeEcho, if_pos hpending]
      rw [ProbeRun.step]
      simp only [haccepted, if_true]
      exact h.observeEcho hpending peerRx
    · have hunchanged : r.step t (.observeEcho originTx peerRx) = r := by
        simp only [ProbeRun.step, LinkDelays.observeEcho, if_neg hpending]
        rfl
      rw [hunchanged]
      exact h
  | renew now => exact h.renew now

end

theorem accounted_run (t : DelayTunables) (events : List ProbeEvent) :
    Accounted t (ProbeRun.run t events) :=
  Lib.Transitions.run_invariant (fun _ event h _ => h.step event) (accounted_start t)
    Lib.Transitions.along_true

/-- The probes of a link have increasing timestamps, up to the last one of the allocator. -/
def Ascending (r : ProbeRun) : Prop :=
  r.ledger.times.Pairwise (· < ·) ∧ ∀ txTs ∈ r.ledger.times, txTs ≤ r.last.toInt

theorem ascending_step {t : DelayTunables} {r : ProbeRun} (event : ProbeEvent) (h : Ascending r)
    (hlast : r.last ≠ .maxValue) : Ascending (r.step t event) := by
  obtain ⟨hordered, hbound⟩ := h
  cases event with
  | draw reading =>
    exact ⟨hordered, fun txTs hmem =>
      (hbound txTs hmem).trans (lt_probeTimestampNext hlast reading).le⟩
  | registerProbe reading =>
    have hnew : ∀ txTs ∈ r.ledger.times, txTs < (probeTimestampNext r.last reading).toInt :=
      fun txTs hmem => (hbound txTs hmem).trans_lt (lt_probeTimestampNext hlast reading)
    refine ⟨pairwise_append.mpr ⟨hordered, pairwise_singleton _ _, ?_⟩, ?_⟩
    · intro txTs hmem other hother
      rw [mem_singleton.mp hother]
      exact hnew txTs hmem
    · intro txTs hmem
      obtain hold | hlatest := mem_append.mp hmem
      · exact (hnew txTs hold).le
      · exact (mem_singleton.mp hlatest).le
  | cancelProbe txTs => exact ⟨hordered, hbound⟩
  | sweepProbes nowNs => exact ⟨hordered, hbound⟩
  | observeEcho originTx peerRx =>
    simp only [Ascending, ProbeRun.step]
    split <;> exact ⟨hordered, hbound⟩
  | renew now =>
    simp only [Ascending, ProbeRun.step]
    split <;> exact ⟨hordered, hbound⟩

/-- Of probes with different timestamps, an echo is credited to its own. -/
theorem Ledger.Balanced.find_pending {l : Ledger} (h : l.Balanced)
    (hordered : l.times.Pairwise (· < ·)) {probe : Nat × Time} (hprobe : probe ∈ l.pending) :
    l.pending.find? (fun other => other.2 == probe.2) = some probe := by
  obtain ⟨other, hfound⟩ := Option.isSome_iff_exists.mp
    (find?_isSome (p := fun other => other.2 == probe.2).mpr ⟨probe, hprobe, beq_self_eq_true _⟩)
  have hsame : other.2 = probe.2 := by simpa using find?_some hfound
  have hstamp := h.stamped other (mem_of_find?_eq_some hfound)
  have hindex : other.1 = probe.1 := by
    have hlt := h.lt_of_pending (mem_of_find?_eq_some hfound)
    refine (getElem?_inj hlt hordered.nodup).mp ?_
    rw [hstamp, h.stamped probe hprobe, hsame]
  rw [hfound, Prod.ext hindex hsame]

/-- Whatever happens to a link, every registered probe is pending or has exactly one
outcome; the loss estimate holds a sample for each accepted echo and each lost probe since
the last reset, and no other; the pending probes are the last of the unresolved ones, at
most 128, in order; and an echo that matches none of them changes nothing. As long as the
allocator does not wrap around, an accepted echo is the outcome of its own probe. -/
theorem probes_accounted_once (t : DelayTunables) (events : List ProbeEvent) :
    let r := ProbeRun.run t events
    (r.ledger.pending.map Prod.fst ++ r.ledger.outcomes.map Prod.fst).Perm
        (range r.ledger.times.length) ∧
      r.ledger.samples.length = r.ledger.count .accepted + r.ledger.count .lost ∧
      lossEstimate r.link = lossEstimate (r.ledger.samples.foldl (LinkDelays.recordLoss t) .new) ∧
      r.link.lossSamples = min ((r.ledger.count .accepted + r.ledger.count .lost : Nat) : Int)
        (max t.minimumConfidenceWindow 0) ∧
      r.link.pending = r.ledger.pending.map Prod.snd ∧
      (∀ probe ∈ r.ledger.pending, r.ledger.times[probe.1]? = some probe.2) ∧
      r.link.pending.length ≤ 128 ∧
      r.ledger.pending.map Prod.fst <:+ r.ledger.unresolved ∧
      (∀ originTx peerRx, originTx ∉ r.link.pending →
        r.link.observeEcho t originTx peerRx = (false, r.link)) ∧
      (Lib.Transitions.Along (ProbeRun.step t) (fun r _ => r.last ≠ .maxValue) .start events →
        r.ledger.times.Pairwise (· < ·) ∧ ∀ probe ∈ r.ledger.pending, ∀ peerRx,
          (r.step t (.observeEcho probe.2 peerRx)).ledger.recent =
            r.ledger.recent ++ [(probe.1, .accepted)]) := by
  intro r
  have h : Accounted t r := accounted_run t events
  have hsamples : r.link.lossSamples =
      (r.ledger.samples.foldl (LinkDelays.recordLoss t) .new).lossSamples :=
    congrArg (fun loss => loss.2.2) h.loss
  refine ⟨h.balanced.once, r.ledger.length_samples, h.loss, ?_, h.pending, h.balanced.stamped,
    h.bounded, h.balanced.pending_suffix, ?_, ?_⟩
  · rw [hsamples, lossSamples_foldl, r.ledger.length_samples]
  · intro originTx peerRx hpending
    rw [LinkDelays.observeEcho, if_neg hpending]
  · intro hlast
    have hascending : Ascending r :=
      Lib.Transitions.run_invariant (fun _ => ascending_step) ⟨Pairwise.nil, nofun⟩ hlast
    refine ⟨hascending.1, fun probe hprobe peerRx => ?_⟩
    have hpending : probe.2 ∈ r.link.pending := by
      rw [h.pending]
      exact mem_map_of_mem hprobe
    simp only [ProbeRun.step, LinkDelays.observeEcho, if_pos hpending, if_true,
      Ledger.settleFirst, Ledger.settle, h.balanced.find_pending hascending.1 hprobe]
    rfl

end Nylon.Core
