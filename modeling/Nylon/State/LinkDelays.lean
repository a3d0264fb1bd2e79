import Nylon.State.DelayFilter

/-!
The measurement of one link (the timestamps, delays and loss of `NylonEndpoint` in
`state/endpoint.go`, and `observeProbe` of `core/nylon_endpoints.go`). Timestamps are
nanoseconds of the local clock, or of the peer's clock, whose offset is unknown; both
count from the start of a machine or process, so that their differences do not overflow.
-/

namespace Nylon.State

open Lib

def probeTimeout : Time := 5 * 1000000000

def pendingProbeCap : Nat := 128

/-- What an endpoint knows about its link. `lastHeardBack` is `none` for the zero
time. -/
structure LinkDelays where
  lastHeardBack : Option Time
  owdOut : DelayFilter
  owdIn : DelayFilter
  peerTx : Time
  peerTxRxAt : Time
  havePeerTx : Bool
  pending : List Time
  lossEWMA : ℚ
  lossInit : Bool
  lossSamples : Int
  deriving DecidableEq

/-- The timestamps of a received probe: when the peer sent it, and when it received
the probe of ours that it echoes. -/
structure ProbeTimes where
  txTs : Time
  originTxTs : Option Time
  originRxTs : Option Time
  deriving DecidableEq, Repr

namespace LinkDelays

/-- `NewEndpoint`. -/
def new : LinkDelays := ⟨none, .zero, .zero, 0, 0, false, [], 0, false, 0⟩

section

variable (t : DelayTunables) (u : LinkDelays)

def isActive (now : Time) : Bool :=
  match u.lastHeardBack with
  | none => false
  | some heard => now - heard ≤ t.linkDeadThreshold

/-- A recovered link starts with clean estimates. -/
def renew (now : Time) : LinkDelays :=
  let u :=
    if u.isActive t now then u
    else {u with
      owdOut := u.owdOut.reset
      owdIn := u.owdIn.reset
      havePeerTx := false
      pending := []
      lossEWMA := 0
      lossInit := false
      lossSamples := 0}
  {u with lastHeardBack := some now}

def registerProbe (txTs : Time) : LinkDelays :=
  let pending := u.pending ++ [txTs]
  {u with pending := pending.drop (pending.length - pendingProbeCap)}

def cancelProbe (txTs : Time) : LinkDelays :=
  {u with pending := u.pending.erase txTs}

/-- `recordLossLocked`. -/
def recordLoss (received : Bool) : LinkDelays :=
  let sample : ℚ := if received then 0 else 1
  {u with
    lossEWMA :=
      if u.lossInit then t.lossSmoothingAlpha * sample + (1 - t.lossSmoothingAlpha) * u.lossEWMA
      else sample
    lossInit := true
    lossSamples :=
      if u.lossSamples < t.minimumConfidenceWindow then u.lossSamples + 1 else u.lossSamples}

/-- Whether a probe has been waiting for its echo for too long. -/
def expired (nowNs txTs : Time) : Bool := probeTimeout < nowNs - txTs

def sweepProbes (nowNs : Time) : LinkDelays :=
  let swept := u.pending.foldl
    (fun u txTs => if expired nowNs txTs then recordLoss t u false else u) u
  {swept with pending := u.pending.filter (fun txTs => !expired nowNs txTs)}

/-- A duplicate or reordered probe, unless the peer's clock moved far backwards. -/
def staleInbound (peerTx : Time) : Bool :=
  u.havePeerTx && peerTx ≤ u.peerTx && u.peerTx - peerTx < clockJumpReset

def observeInbound (peerTx rxNs : Time) : LinkDelays :=
  if u.staleInbound peerTx then u
  else {u with
    peerTx := peerTx
    peerTxRxAt := rxNs
    havePeerTx := true
    owdIn := u.owdIn.update t (rxNs - peerTx)}

/-- Only the echo of a pending probe is accepted. -/
def observeEcho (originTx peerRx : Time) : Bool × LinkDelays :=
  if originTx ∈ u.pending then
    (true, recordLoss t {u with
      pending := u.pending.erase originTx
      owdOut := u.owdOut.update t (peerRx - originTx)} true)
  else (false, u)

def observeProbe (probe : ProbeTimes) (rxTs : Time) : LinkDelays :=
  let u := u.observeInbound t probe.txTs rxTs
  match probe.originTxTs, probe.originRxTs with
  | some originTx, some peerRx => (u.observeEcho t originTx peerRx).2
  | _, _ => u

def ready : Bool := u.owdOut.ready t && u.owdIn.ready t

/-- The stabilized relative delays towards the peer and from it. -/
def relDelays : Go (Option (Time × Time) × LinkDelays) :=
  if !u.ready t then return (none, u)
  else do
    let (out, owdOut) ← u.owdOut.stabilized t
    let (inb, owdIn) ← u.owdIn.stabilized t
    return (some (out, inb), {u with owdOut := owdOut, owdIn := owdIn})

variable {t u} in
/-- What a read of the delays does. -/
theorem relDelays_cases {u' : LinkDelays} {delays : Option (Time × Time)}
    (h : u.relDelays t = .ok (delays, u')) :
    u.ready t = false ∧ delays = none ∧ u' = u ∨
      ∃ out owdOut inb owdIn, u.ready t = true ∧ u.owdOut.stabilized t = .ok (out, owdOut) ∧
        u.owdIn.stabilized t = .ok (inb, owdIn) ∧ delays = some (out, inb) ∧
        u' = {u with owdOut := owdOut, owdIn := owdIn} := by
  unfold relDelays at h
  cases hready : u.ready t with
  | false =>
    rw [hready] at h
    cases h
    exact .inl ⟨rfl, rfl, rfl⟩
  | true =>
    rw [hready] at h
    cases hout : u.owdOut.stabilized t with
    | error p => simp [hout, bind, Except.bind] at h
    | ok out =>
      cases hin : u.owdIn.stabilized t with
      | error p => simp [hout, hin, bind, Except.bind] at h
      | ok inb =>
        simp only [hout, hin, Go.ok_bind] at h
        cases h
        exact .inr ⟨_, _, _, _, rfl, rfl, rfl, rfl, rfl⟩

def lossRate : ℚ :=
  if u.lossSamples < t.minimumConfidenceWindow then 0
  else min (max u.lossEWMA 0) t.lossCap

/-- The relative delays with the expected time for retransmissions. -/
def dirScores : Go (Option (Time × Time) × LinkDelays) := do
  let (delays, u) ← u.relDelays t
  match delays with
  | none => return (none, u)
  | some (out, inb) =>
    let p := min (u.lossRate t) t.lossCap
    let pen := if 0 < p then truncate ((out + inb + t.lossRetxFloor : Time) * p / (1 - p))
      else 0
    return (some (out + pen, inb + pen), u)

def stabilizedPing : Go (Time × LinkDelays) := do
  let (delays, u) ← u.relDelays t
  match delays with
  | none => return (0, u)
  | some (out, inb) => return (out + inb, u)

end

end LinkDelays

inductive LinkEvent where
  | renew (now : Time)
  | registerProbe (txTs : Time)
  | cancelProbe (txTs : Time)
  | sweepProbes (nowNs : Time)
  | observeProbe (probe : ProbeTimes) (rxTs : Time)
  | relDelays
  deriving DecidableEq, Repr

def LinkEvent.apply (t : DelayTunables) (u : LinkDelays) : LinkEvent → Go LinkDelays
  | .renew now => return u.renew t now
  | .registerProbe txTs => return u.registerProbe txTs
  | .cancelProbe txTs => return u.cancelProbe txTs
  | .sweepProbes nowNs => return u.sweepProbes t nowNs
  | .observeProbe probe rxTs => return u.observeProbe t probe rxTs
  | .relDelays => do return (← u.relDelays t).2

abbrev LinkId := UInt64

abbrev Links := Table LinkId LinkDelays

inductive NeighbourEvent where
  | addLink (id : LinkId)
  | removeLink (id : LinkId)
  | onLink (id : LinkId) (event : LinkEvent)
  deriving DecidableEq, Repr

def NeighbourEvent.apply (t : DelayTunables) (links : Links) : NeighbourEvent → Go Links
  | .addLink id => return links.insert id .new
  | .removeLink id => return links.erase id
  | .onLink id event =>
    match links.lookup id with
    | none => return links
    | some u => do return links.insert id (← event.apply t u)

end Nylon.State
