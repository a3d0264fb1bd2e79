import Nylon.State.DelayFilter

/-!
The delay that a filter reports. Whatever samples, resets and reads came before, the sorted
copy of the window is up to date when it is used, and the indices of the bounds and of the
median lie inside it; so the delay lies between the bounds, and only moves when it left
them.
-/

namespace Nylon.State

open Lib List

def lowIndex (t : DelayTunables) (n : Nat) : Int := truncate ((n : ℚ) * t.outlierPercentage)

def highIndex (t : DelayTunables) (n : Nat) : Int :=
  truncate ((n : ℚ) * (1 - t.outlierPercentage))

inductive FilterEvent where
  | sample (sample : Time)
  | reset
  | read
  deriving DecidableEq, Repr

/-- A filter, with the value that the last read returned since the last reset, or zero. -/
structure ReadFilter where
  filter : DelayFilter
  last : Time
  deriving DecidableEq

namespace ReadFilter

def start : ReadFilter := ⟨.zero, 0⟩

/-- A sample that is taken for a jump of the clock resets the filter too. -/
def apply (t : DelayTunables) (r : ReadFilter) : FilterEvent → Go ReadFilter
  | .sample sample =>
    return ⟨r.filter.update t sample, if r.filter.Jumps sample then 0 else r.last⟩
  | .reset => return ⟨r.filter.reset, 0⟩
  | .read => do
    let (value, filter) ← r.filter.stabilized t
    return ⟨filter, value⟩

def run (t : DelayTunables) (events : List FilterEvent) : Go ReadFilter :=
  events.foldlM (apply t) start

end ReadFilter

def DelayFilter.window (f : DelayFilter) : List Time := f.history.insertionSort (· ≤ ·)

section Indices

theorem truncate_of_nonneg {q : ℚ} (h : 0 ≤ q) : truncate q = ⌊q⌋ := if_pos h

variable {t : DelayTunables} (hpos : 0 < t.outlierPercentage)
  (hhalf : t.outlierPercentage < 1 / 2)

include hpos hhalf

/-- The bounds lie inside the window and around its median. -/
theorem indices_in_window {n : Nat} (hn : 0 < n) :
    0 ≤ lowIndex t n ∧ lowIndex t n ≤ (n / 2 : Nat) ∧ ((n / 2 : Nat) : Int) ≤ highIndex t n ∧
      highIndex t n < n := by
  have hq : (0 : ℚ) < n := by exact_mod_cast hn
  have hlow : 0 ≤ (n : ℚ) * t.outlierPercentage := (mul_pos hq hpos).le
  have hhigh : 0 ≤ (n : ℚ) * (1 - t.outlierPercentage) := (mul_pos hq (by linarith)).le
  have hbelow : (n : ℚ) * t.outlierPercentage ≤ n / 2 := by nlinarith
  have habove : (n : ℚ) / 2 ≤ n * (1 - t.outlierPercentage) := by nlinarith
  have hmiddle : ⌊(n : ℚ) / 2⌋ = ((n / 2 : Nat) : Int) := by
    have hfloor := Rat.floor_intCast_div_natCast n 2
    push_cast at hfloor ⊢
    exact hfloor
  rw [lowIndex, highIndex, truncate_of_nonneg hlow, truncate_of_nonneg hhigh, ← hmiddle]
  refine ⟨Int.floor_nonneg.mpr hlow, Int.floor_le_floor hbelow, Int.floor_le_floor habove, ?_⟩
  rw [Int.floor_lt]
  push_cast
  nlinarith

end Indices

/-- What holds of a filter between its calls. -/
structure Tracked (t : DelayTunables) (r : ReadFilter) : Prop where
  size : (r.filter.history.length : Int) ≤ t.windowSamples
  clean : r.filter.dirty = false → r.filter.histSort = r.filter.window
  last : r.filter.prevMedian = r.last

theorem Tracked.histSort_sorted {t : DelayTunables} {r : ReadFilter} (h : Tracked t r) :
    r.filter.sorted.histSort = r.filter.window := by
  unfold DelayFilter.sorted
  split
  · rfl
  · next hdirty => exact h.clean (Bool.eq_false_iff.mpr hdirty)

theorem length_update_le {t : DelayTunables} {history : List Time}
    (h : (history.length : Int) ≤ t.windowSamples) (v : Time) :
    ((if t.windowSamples < (history ++ [v]).length then (history ++ [v]).tail
      else history ++ [v]).length : Int) ≤ t.windowSamples := by
  split
  · rw [length_tail, length_append, length_singleton]
    omega
  · next hfits => exact not_lt.mp hfits

/-- What a sample does to the window, the sorted copy and the median. -/
theorem update_spec (t : DelayTunables) (f : DelayFilter) (sample : Time) :
    ∃ v, (f.update t sample).history =
        (let history := (if f.Jumps sample then [] else f.history) ++ [v]
         if t.windowSamples < history.length then history.tail else history) ∧
      (f.update t sample).dirty = true ∧
      (f.update t sample).prevMedian = if f.Jumps sample then 0 else f.prevMedian := by
  unfold DelayFilter.update
  by_cases hjump : f.Jumps sample
  · simp only [if_pos hjump]
    exact ⟨_, rfl, trivial, rfl⟩
  · simp only [if_neg hjump]
    by_cases hinit : f.init = true
    · simp only [if_pos hinit]
      exact ⟨_, rfl, trivial, trivial⟩
    · simp only [if_neg hinit]
      exact ⟨_, rfl, trivial, trivial⟩

/-- A read takes the bounds and the median of the current window. -/
theorem Tracked.stabilized_eq {t : DelayTunables} {r : ReadFilter} (h : Tracked t r) :
    r.filter.stabilized t = (DelayFilter.trimmed t r.filter.window).map fun bounds =>
      let f := r.filter.sorted.moved bounds.1 bounds.2.1 bounds.2.2
      (f.prevMedian, f) := by
  unfold DelayFilter.stabilized
  dsimp only
  rw [h.histSort_sorted]
  cases DelayFilter.trimmed t r.filter.window <;> rfl

theorem moved_spec (f : DelayFilter) (low high med : Time) :
    (f.moved low high med).history = f.history ∧
      (f.moved low high med).histSort = f.histSort ∧
      (f.moved low high med).dirty = f.dirty ∧
      (f.moved low high med).prevMedian =
        if f.prevMedian < low ∨ high < f.prevMedian then med else f.prevMedian := by
  unfold DelayFilter.moved
  split <;> exact ⟨rfl, rfl, rfl, rfl⟩

theorem tracked_start {t : DelayTunables} (ht : 0 ≤ t.windowSamples) : Tracked t .start :=
  ⟨ht, fun _ => rfl, rfl⟩

theorem Tracked.apply {t : DelayTunables} (ht : 0 ≤ t.windowSamples) {r r' : ReadFilter}
    (h : Tracked t r) {event : FilterEvent} (happly : r.apply t event = .ok r') :
    Tracked t r' := by
  cases event with
  | sample sample =>
    cases happly
    obtain ⟨v, hhistory, hdirty, hmedian⟩ := update_spec t r.filter sample
    refine ⟨?_, ?_, ?_⟩
    · rw [hhistory]
      apply length_update_le
      split
      · exact ht
      · exact h.size
    · intro hclean
      exact nomatch hdirty.symm.trans hclean
    · rw [hmedian, h.last]
  | reset =>
    cases happly
    exact ⟨ht, nofun, rfl⟩
  | read =>
    rw [ReadFilter.apply, h.stabilized_eq] at happly
    cases htrimmed : DelayFilter.trimmed t r.filter.window with
    | error p =>
      rw [htrimmed] at happly
      cases happly
    | ok bounds =>
      rw [htrimmed] at happly
      cases happly
      obtain ⟨hhistory, hsort, hdirty, _⟩ :=
        moved_spec r.filter.sorted bounds.1 bounds.2.1 bounds.2.2
      have hhistory' := r.filter.history_sorted
      refine ⟨?_, fun _ => ?_, rfl⟩
      · rw [hhistory, hhistory']
        exact h.size
      · rw [hsort, h.histSort_sorted, DelayFilter.window, DelayFilter.window, hhistory, hhistory']

theorem tracked_run {t : DelayTunables} (ht : 0 ≤ t.windowSamples) {events : List FilterEvent}
    {r : ReadFilter} (hrun : ReadFilter.run t events = .ok r) : Tracked t r := by
  have hall : ∀ (events : List FilterEvent) (r r' : ReadFilter), Tracked t r →
      events.foldlM (ReadFilter.apply t) r = .ok r' → Tracked t r' := by
    intro events
    induction events with
    | nil =>
      intro r r' h hrun
      cases hrun
      exact h
    | cons event events ih =>
      intro r r' h hrun
      rw [foldlM_cons] at hrun
      cases happly : r.apply t event with
      | error p =>
        rw [happly] at hrun
        cases hrun
      | ok next =>
        rw [happly] at hrun
        exact ih next r' (h.apply ht happly) hrun
  exact hall events .start r (tracked_start ht) hrun

/-- Whenever a filter is ready, the bounds and the median are inside its sorted window, of
at most `WindowSamples` values; the delay it reports lies between the bounds, and only
differs from the one reported before if that one lies outside them. -/
theorem stabilized_in_window {t : DelayTunables} (hwindow : 1 ≤ t.windowSamples)
    (hconfidence : 1 ≤ t.minimumConfidenceWindow) (hpos : 0 < t.outlierPercentage)
    (hhalf : t.outlierPercentage < 1 / 2) {events : List FilterEvent} {r : ReadFilter}
    (hrun : ReadFilter.run t events = .ok r) (hready : r.filter.ready t = true) :
    (r.filter.window.length : Int) ≤ t.windowSamples ∧ 0 ≤ lowIndex t r.filter.window.length ∧
      lowIndex t r.filter.window.length < r.filter.window.length ∧
      0 ≤ highIndex t r.filter.window.length ∧
      highIndex t r.filter.window.length < r.filter.window.length ∧
      r.filter.window.length / 2 < r.filter.window.length ∧
      ∃ low high value next,
        r.filter.window[(lowIndex t r.filter.window.length).toNat]? = some low ∧
        r.filter.window[(highIndex t r.filter.window.length).toNat]? = some high ∧
        r.filter.stabilized t = .ok (value, next) ∧ low ≤ value ∧ value ≤ high ∧
        (value ≠ r.last → r.last < low ∨ high < r.last) := by
  have h := tracked_run (by omega) hrun
  have hlen : r.filter.window.length = r.filter.history.length := length_insertionSort _ _
  have hsize := h.size
  have hn : 0 < r.filter.window.length := by
    have hmin := of_decide_eq_true hready
    omega
  obtain ⟨hlow, hlowMid, hmidHigh, hhigh⟩ := indices_in_window hpos hhalf hn
  have hmid : r.filter.window.length / 2 < r.filter.window.length := Nat.div_lt_self hn (by decide)
  have hsorted : r.filter.window.Pairwise (· ≤ ·) := pairwise_insertionSort _ _
  obtain ⟨low, helemLow, hlowAt⟩ := Go.elem_eq_ok (l := r.filter.window) hlow (by omega)
  obtain ⟨high, helemHigh, hhighAt⟩ := Go.elem_eq_ok (l := r.filter.window) (by omega) hhigh
  obtain ⟨med, helemMed, hmedAt⟩ := Go.elem_eq_ok (l := r.filter.window)
    (Int.natCast_nonneg (r.filter.window.length / 2)) (by omega)
  have hle : low ≤ med := getElem?_le_of_sorted hsorted (by omega) hlowAt hmedAt
  have hge : med ≤ high := getElem?_le_of_sorted hsorted (by omega) hmedAt hhighAt
  have htrimmed : DelayFilter.trimmed t r.filter.window = .ok (low, high, med) := by
    unfold DelayFilter.trimmed
    unfold lowIndex at helemLow
    unfold highIndex at helemHigh
    simp only [helemLow, helemHigh, helemMed, Go.ok_bind]
    rfl
  have hread := h.stabilized_eq
  rw [htrimmed] at hread
  obtain ⟨_, _, _, hmedian⟩ := moved_spec r.filter.sorted low high med
  rw [r.filter.prevMedian_sorted, h.last] at hmedian
  refine ⟨by omega, hlow, by omega, by omega, hhigh, hmid, low, high, _, _, hlowAt, hhighAt,
    hread, ?_, ?_, ?_⟩
  · show low ≤ DelayFilter.prevMedian _
    rw [hmedian]
    split
    · exact hle
    · next hin => exact not_lt.mp (not_or.mp hin).1
  · show DelayFilter.prevMedian _ ≤ high
    rw [hmedian]
    split
    · exact hge
    · next hin => exact not_lt.mp (not_or.mp hin).2
  · show DelayFilter.prevMedian _ ≠ r.last → _
    rw [hmedian]
    split
    · next hout => exact fun _ => hout
    · exact fun hne => absurd rfl hne

/-- The samples after the first read are larger, and the reported delay moves from 7
to 167. -/
theorem stabilized_in_window_moving :
    let t := {defaultDelayTunables with windowSamples := 3, minimumConfidenceWindow := 2}
    let r : ReadFilter :=
      ⟨⟨[90, 167, 237], [7, 7], true, 7, 3709646829 / 15625000, true⟩, 7⟩
    ReadFilter.run t [.sample 7, .sample 7, .read, .sample 1007, .sample 1007, .sample 1007] =
        .ok r ∧ r.filter.ready t = true ∧
      ∃ low high next, r.filter.stabilized t = .ok (167, next) ∧ low ≤ 167 ∧ 167 ≤ high ∧
        (r.last < low ∨ high < r.last) := by
  intro t r
  have hrun : ReadFilter.run t
      [.sample 7, .sample 7, .read, .sample 1007, .sample 1007, .sample 1007] = .ok r := by
    decide +kernel
  have hready : r.filter.ready t = true := by decide
  obtain ⟨_, _, _, _, _, _, low, high, value, next, _, _, hread, hlow, hhigh, hmoves⟩ :=
    stabilized_in_window (by decide) (by decide) (by decide +kernel) (by decide +kernel) hrun
      hready
  have hvalue : (r.filter.stabilized t).map Prod.fst = .ok 167 := by decide +kernel
  rw [hread] at hvalue
  obtain rfl := Except.ok.inj hvalue
  exact ⟨hrun, hready, low, high, next, hread, hlow, hhigh, hmoves (by decide)⟩

end Nylon.State
