import Mathlib.Data.BitVec
import Mathlib.Tactic

/-!
The replay filter of a session (`polyamide/replay/replay.go`). The filter remembers
the counters it has accepted in a ring of blocks, one bit for each counter, and
clears blocks as the window moves on. `Reset` clears the first block only: what the
others still hold from before is cleared before it is read.
-/

namespace Nylon.Polyamide

def blockBits : Nat := 64

def ringBlocks : Nat := 128

def windowSize : Nat := (ringBlocks - 1) * blockBits

/-- `replay.Filter`. The ring is read and written modulo `ringBlocks`. -/
structure Filter where
  last : Nat
  ring : Nat → BitVec blockBits

namespace Filter

/-- The zero value. -/
def zero : Filter := ⟨0, fun _ => 0⟩

def reset (f : Filter) : Filter :=
  ⟨0, Function.update f.ring 0 0⟩

/-- The blocks after `current` are cleared. -/
def clear (ring : Nat → BitVec blockBits) (current diff : Nat) : Nat → BitVec blockBits :=
  (List.range' (current + 1) diff).foldl
    (fun ring i => Function.update ring (i % ringBlocks) 0) ring

/-- The window moves forward to a counter. -/
def advance (f : Filter) (counter : Nat) : Filter :=
  let current := f.last / blockBits
  let diff := min (counter / blockBits - current) ringBlocks
  ⟨counter, clear f.ring current diff⟩

/-- The bit of the counter is set; the result says whether it was clear. -/
def mark (f : Filter) (counter : Nat) : Filter × Bool :=
  let indexBlock := counter / blockBits % ringBlocks
  let old := f.ring indexBlock
  let new := old ||| BitVec.ofNat blockBits 1 <<< (counter % blockBits)
  ({f with ring := Function.update f.ring indexBlock new}, old != new)

def validateCounter (f : Filter) (counter limit : Nat) : Filter × Bool :=
  if limit ≤ counter then (f, false)
  else if f.last < counter then (f.advance counter).mark counter
  else if windowSize < f.last - counter then (f, false)
  else f.mark counter

def bit (f : Filter) (c : Nat) : Bool :=
  (f.ring (c / blockBits % ringBlocks)).getLsbD (c % blockBits)

/-- The block of a counter is one of the last `ringBlocks` up to the newest one. -/
def Covered (f : Filter) (c : Nat) : Prop :=
  c / blockBits ≤ f.last / blockBits ∧ f.last / blockBits < c / blockBits + ringBlocks

/-- The filter knows which counters it has accepted. -/
structure Knows (f : Filter) (accepted : Finset Nat) : Prop where
  le_last : ∀ c ∈ accepted, c ≤ f.last
  newest : f.last = 0 ∨ f.last ∈ accepted
  bits : ∀ c, f.Covered c → (f.bit c = true ↔ c ∈ accepted)

variable {f : Filter} {c counter limit current diff i j : Nat} {accepted : Finset Nat}
  {ring : Nat → BitVec blockBits}

theorem clear_succ : clear ring current (diff + 1) =
    Function.update (clear ring current diff) ((current + 1 + diff) % ringBlocks) 0 := by
  unfold clear
  rw [List.range'_concat, List.foldl_append, Nat.one_mul]
  rfl

theorem clear_of_ne (h : ∀ i, current < i → i ≤ current + diff → i % ringBlocks ≠ j) :
    clear ring current diff j = ring j := by
  induction diff with
  | zero => rfl
  | succ diff ih =>
    rw [clear_succ, Function.update_of_ne (h _ (by omega) (by omega)).symm]
    exact ih fun i hlt hle => h i hlt (by omega)

theorem clear_of_mem (hlt : current < i) (hle : i ≤ current + diff) :
    clear ring current diff (i % ringBlocks) = 0 := by
  induction diff with
  | zero => omega
  | succ diff ih =>
    rw [clear_succ, Function.update_apply]
    split
    · rfl
    next hne => exact ih (by_contra fun hnot => hne (by congr 1; omega))

/-- A block that enters the window is cleared, also if the window moves on by more
than the ring. -/
theorem exists_cleared {block new : Nat} (hlt : current < block) (hnew : block ≤ new)
    (hold : new < block + 128) :
    ∃ i, current < i ∧ i ≤ current + min (new - current) 128 ∧ i % 128 = block % 128 :=
  ⟨block - 128 * ((block - current - 1) / 128), by omega, by omega, by omega⟩

/-- Counters in the window before it moves are kept, the others start anew. -/
theorem bit_advance (h : f.Knows accepted) (hlt : f.last < counter)
    (hcovered : (f.advance counter).Covered c) :
    (f.advance counter).bit c = true ↔ c ∈ accepted := by
  obtain ⟨hnew, hold⟩ := hcovered
  have hblocks : f.last / blockBits ≤ counter / blockBits := Nat.div_le_div_right hlt.le
  simp only [advance, ringBlocks] at hnew hold
  simp only [bit, advance, ringBlocks]
  by_cases hblock : c / blockBits ≤ f.last / blockBits
  · rw [clear_of_ne fun i hi hle => by simp only [ringBlocks]; omega]
    exact h.bits c ⟨hblock, by simp only [ringBlocks]; omega⟩
  · obtain ⟨i, hi, hle, hslot⟩ := exists_cleared (Nat.lt_of_not_le hblock) hnew hold
    have hzero : clear f.ring (f.last / blockBits) _ (i % 128) = 0 := clear_of_mem hi hle
    rw [← hslot, hzero]
    refine iff_of_false (by simp) fun hmem => hblock ?_
    exact Nat.div_le_div_right (h.le_last c hmem)

theorem getLsbD_one_shiftLeft {w i k : Nat} (hi : i < w) :
    (BitVec.ofNat w 1 <<< k).getLsbD i = decide (i = k) := by
  rw [← BitVec.twoPow_eq, BitVec.getLsbD_twoPow]
  by_cases heq : i = k
  · simp [← heq, hi]
  · simp [heq, Ne.symm heq]

theorem bit_mark : (f.mark counter).1.bit c = true ↔ f.bit c = true ∨
    c / blockBits % ringBlocks = counter / blockBits % ringBlocks ∧
      c % blockBits = counter % blockBits := by
  have hlt : c % blockBits < blockBits := Nat.mod_lt _ (by decide)
  simp only [bit, mark, Function.update_apply]
  split
  next hslot => simp only [hslot, BitVec.getLsbD_or, getLsbD_one_shiftLeft hlt, Bool.or_eq_true,
    decide_eq_true_eq, true_and]
  next hslot => simp only [hslot, false_and, or_false]

theorem mark_fresh : (f.mark counter).2 = true ↔ f.bit counter = false := by
  have hlt : counter % blockBits < blockBits := Nat.mod_lt _ (by decide)
  simp only [mark, bit, bne_iff_ne, ne_eq]
  rw [← Bool.not_eq_true, not_iff_not]
  constructor
  · intro heq
    rw [heq, BitVec.getLsbD_or, getLsbD_one_shiftLeft hlt]
    simp
  · intro hset
    apply BitVec.eq_of_getLsbD_eq
    intro i hi
    rw [BitVec.getLsbD_or, getLsbD_one_shiftLeft hi]
    by_cases heq : i = counter % blockBits
    · rw [heq, hset]
      rfl
    · simp [heq]

/-- A counter in the window is fresh if it was not accepted before, and it is known
afterwards. -/
theorem mark_spec (hle : ∀ c ∈ accepted, c ≤ f.last)
    (hbits : ∀ c, f.Covered c → (f.bit c = true ↔ c ∈ accepted)) (hcovered : f.Covered counter)
    (hnewest : f.last = 0 ∨ f.last ∈ insert counter accepted) (hcounter : counter ≤ f.last) :
    ((f.mark counter).2 = true ↔ counter ∉ accepted) ∧
      (f.mark counter).1.Knows (if (f.mark counter).2 then insert counter accepted
        else accepted) := by
  have hfresh : (f.mark counter).2 = true ↔ counter ∉ accepted := by
    rw [mark_fresh, ← hbits counter hcovered, Bool.not_eq_true]
  have hinsert : (if (f.mark counter).2 then insert counter accepted else accepted) =
      insert counter accepted := by
    split
    · rfl
    next hnot => exact (Finset.insert_eq_of_mem (not_not.mp (mt hfresh.mpr hnot))).symm
  rw [hinsert]
  refine ⟨hfresh, ?_, hnewest, fun c hc => ?_⟩
  · exact Finset.forall_mem_insert .. |>.mpr ⟨hcounter, hle⟩
  · have hsame : c / blockBits % ringBlocks = counter / blockBits % ringBlocks ∧
        c % blockBits = counter % blockBits ↔ c = counter := by
      constructor
      · obtain ⟨h1, h2⟩ := hcovered
        obtain ⟨h3, h4⟩ := hc
        simp only [blockBits, ringBlocks, mark] at *
        omega
      · rintro rfl
        exact ⟨rfl, rfl⟩
    rw [bit_mark, hsame, hbits c hc, Finset.mem_insert, or_comm]

theorem validateCounter_spec (h : f.Knows accepted) (counter limit : Nat) :
    ((f.validateCounter counter limit).2 = true ↔
      counter < limit ∧ counter ∉ accepted ∧ f.last ≤ counter + windowSize) ∧
    (f.validateCounter counter limit).1.Knows
      (if (f.validateCounter counter limit).2 then insert counter accepted else accepted) := by
  unfold validateCounter
  split
  next hlimit => exact ⟨iff_of_false (by simp) fun hok => by omega, by simpa using h⟩
  next hlimit =>
    split
    next hlt =>
      have hcovered : (f.advance counter).Covered counter :=
        ⟨le_rfl, Nat.lt_add_of_pos_right (by decide)⟩
      obtain ⟨hfresh, hknows⟩ := mark_spec (fun c hc => (h.le_last c hc).trans hlt.le)
        (fun c => bit_advance h hlt) hcovered (.inr (Finset.mem_insert_self ..)) le_rfl
      refine ⟨?_, hknows⟩
      rw [hfresh]
      exact ⟨fun hnew => ⟨by omega, hnew, by omega⟩, fun hok => hok.2.1⟩
    next hle =>
      split
      next hold => exact ⟨iff_of_false (by simp) fun hok => by omega, by simpa using h⟩
      next hwindow =>
        have hcovered : f.Covered counter := by
          simp only [Covered, windowSize, blockBits, ringBlocks] at *
          omega
        obtain ⟨hfresh, hknows⟩ := mark_spec h.le_last h.bits hcovered
          (h.newest.imp_right (Finset.mem_insert_of_mem)) (by omega)
        refine ⟨?_, hknows⟩
        rw [hfresh]
        exact ⟨fun hnew => ⟨by omega, hnew, by omega⟩, fun hok => hok.2.1⟩

/-- A filter that starts at zero with an empty first block knows that it has accepted
nothing, whatever the other blocks hold. -/
theorem knows_empty (hlast : f.last = 0) (hfirst : f.ring 0 = 0) : f.Knows ∅ := by
  refine ⟨by simp, .inl hlast, fun c hc => ?_⟩
  have hblock : c / blockBits = 0 := by
    simpa [Covered, hlast] using hc.1
  simp [bit, hblock, hfirst]

end Filter

/-- What is done with the filter of a session. -/
inductive FilterOp where
  | validate (counter limit : Nat)
  | reset

/-- The filter, and the counters it has accepted since it was last reset. -/
def FilterOp.apply (s : Filter × Finset Nat) : FilterOp → Filter × Finset Nat
  | .validate counter limit =>
    let (f, ok) := s.1.validateCounter counter limit
    (f, if ok then insert counter s.2 else s.2)
  | .reset => (s.1.reset, ∅)

def filterAfter (ops : List FilterOp) : Filter × Finset Nat :=
  ops.foldl FilterOp.apply (.zero, ∅)

theorem knows_after (ops : List FilterOp) : (filterAfter ops).1.Knows (filterAfter ops).2 := by
  induction ops using List.reverseRecOn with
  | nil => exact Filter.knows_empty rfl rfl
  | append_singleton ops op ih =>
    unfold filterAfter
    rw [List.foldl_append]
    cases op with
    | validate counter limit => exact (Filter.validateCounter_spec ih counter limit).2
    | reset => exact Filter.knows_empty rfl (by simp [FilterOp.apply, Filter.reset])

/-- A counter is accepted exactly if it is below the limit, was not accepted since the
last reset, and is not more than the window behind any counter that was. -/
theorem validateCounter_iff (ops : List FilterOp) (counter limit : Nat) :
    ((filterAfter ops).1.validateCounter counter limit).2 = true ↔
      counter < limit ∧ counter ∉ (filterAfter ops).2 ∧
        ∀ c ∈ (filterAfter ops).2, c ≤ counter + windowSize := by
  have hknows := knows_after ops
  rw [(Filter.validateCounter_spec hknows counter limit).1]
  refine and_congr_right fun _ => and_congr_right fun _ => ⟨fun hlast c hc => ?_, fun hall => ?_⟩
  · exact (hknows.le_last c hc).trans hlast
  · rcases hknows.newest with hzero | hmem
    · omega
    · exact hall _ hmem

example : ((filterAfter [.validate 9000 10000, .reset]).1.validateCounter 8 10000).2 = true := by
  decide

end Nylon.Polyamide
