import Nylon.Lib.Go
import Nylon.Lib.Sorting
import Nylon.State.Routing

/-!
The smoothing of relative one-way delays (`delayFilter` of `state/endpoint.go`): an
exponential average, and the median of a window of its values that only moves when it
leaves the window's range without outliers. Averages are exact rationals, and delays
are integers that are cut off towards zero as Go's conversion to `int64` does.
-/

namespace Nylon.State

open Lib

/-- What the measurement of links reads of the tunables. -/
structure DelayTunables where
  windowSamples : Int
  outlierPercentage : ℚ
  minimumConfidenceWindow : Int
  linkDeadThreshold : Time
  lossSmoothingAlpha : ℚ
  lossRetxFloor : Time
  lossCap : ℚ
  deriving DecidableEq

def defaultDelayTunables : DelayTunables where
  windowSamples := 60
  outlierPercentage := 5 / 100
  minimumConfidenceWindow := 15
  linkDeadThreshold := 5 * 1000000000
  lossSmoothingAlpha := 1 / 10
  lossRetxFloor := 100 * 1000000
  lossCap := 95 / 100

def clockJumpReset : Time := 60 * 1000000000

/-- The conversion of a floating-point number to an integer. -/
def truncate (q : ℚ) : Int :=
  if 0 ≤ q then ⌊q⌋ else ⌈q⌉

structure DelayFilter where
  history : List Time
  histSort : List Time
  dirty : Bool
  prevMedian : Time
  exp : ℚ
  init : Bool
  deriving DecidableEq

namespace DelayFilter

/-- The zero value. -/
def zero : DelayFilter := ⟨[], [], false, 0, 0, false⟩

def reset (f : DelayFilter) : DelayFilter :=
  {f with history := [], dirty := true, init := false, exp := 0, prevMedian := 0}

def alpha : ℚ := 836 / 10000

/-- Whether a sample is taken for a jump of the clock offset. -/
def Jumps (f : DelayFilter) (sample : Time) : Prop :=
  f.init = true ∧ clockJumpReset < |(sample : ℚ) - f.exp|

instance (f : DelayFilter) (sample : Time) : Decidable (f.Jumps sample) :=
  inferInstanceAs (Decidable (_ ∧ _))

def update (t : DelayTunables) (f : DelayFilter) (sample : Time) : DelayFilter :=
  let f := if f.Jumps sample then f.reset else f
  let f := if f.init then f else {f with exp := sample, init := true}
  let exp := alpha * sample + (1 - alpha) * f.exp
  let history := f.history ++ [truncate exp]
  {f with
    exp := exp
    history := if t.windowSamples < history.length then history.tail else history
    dirty := true}

def ready (t : DelayTunables) (f : DelayFilter) : Bool :=
  t.minimumConfidenceWindow ≤ f.history.length

def filtered (f : DelayFilter) : Time :=
  if f.init then truncate f.exp else 0

def sorted (f : DelayFilter) : DelayFilter :=
  if f.dirty then {f with histSort := f.history.insertionSort (· ≤ ·), dirty := false}
  else f

theorem prevMedian_sorted (f : DelayFilter) : f.sorted.prevMedian = f.prevMedian := by
  unfold sorted
  split <;> rfl

theorem history_sorted (f : DelayFilter) : f.sorted.history = f.history := by
  unfold sorted
  split <;> rfl

theorem dirty_sorted (f : DelayFilter) : f.sorted.dirty = false := by
  unfold sorted
  split
  · rfl
  · next hclean => exact Bool.eq_false_iff.mpr hclean

/-- The bounds of the window without outliers, and its median. -/
def trimmed (t : DelayTunables) (window : List Time) : Go (Time × Time × Time) := do
  let le : ℚ := window.length
  let low ← Go.elem window (truncate (le * t.outlierPercentage))
  let high ← Go.elem window (truncate (le * (1 - t.outlierPercentage)))
  let med ← Go.elem window (window.length / 2 : Nat)
  return (low, high, med)

/-- The median moves when it lies outside the bounds. -/
def moved (f : DelayFilter) (low high med : Time) : DelayFilter :=
  if f.prevMedian < low ∨ high < f.prevMedian then {f with prevMedian := med} else f

def stabilized (t : DelayTunables) (f : DelayFilter) : Go (Time × DelayFilter) := do
  let f := f.sorted
  let (low, high, med) ← trimmed t f.histSort
  let f := f.moved low high med
  return (f.prevMedian, f)

end DelayFilter

end Nylon.State
