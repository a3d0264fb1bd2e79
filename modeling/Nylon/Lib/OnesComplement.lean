import Mathlib.Algebra.GroupWithZero.Nat
import Mathlib.Tactic

/-!
The Internet checksum: sums of 16-bit words in one's-complement arithmetic. Every
way to compute such a sum agrees with the plain sum of the words modulo 65535; the
two representations of zero are told apart by whether all words are zero.
-/

namespace Lib.OnesComplement

/-- Addition of 16-bit words with end-around carry. -/
def addWord (a b : Nat) : Nat := (a + b) % 65536 + (a + b) / 65536

/-- The 16-bit words of a byte string; an odd last byte is padded with a zero byte. -/
def words : List UInt8 → List Nat
  | [] => []
  | [a] => [a.toNat * 256]
  | a :: b :: rest => (a.toNat * 256 + b.toNat) :: words rest

/-- The one's-complement sum of the words of a byte string. -/
def onesSum (bs : List UInt8) : Nat := (words bs).foldl addWord 0

/-- The bytes include their checksum, and it is right. -/
def Valid (bs : List UInt8) : Prop := onesSum bs = 65535

instance (bs : List UInt8) : Decidable (Valid bs) := inferInstanceAs (Decidable (_ = _))

def total (bs : List UInt8) : Nat := (words bs).sum

/-- The 16-bit number that stands for `n` modulo 65535. Zero only stands for zero. -/
def residue (n : Nat) : Nat := if n = 0 then 0 else (n - 1) % 65535 + 1

/-- One step that adds the carries of a sum back to it. -/
def fold (n : Nat) : Nat := n % 65536 + n / 65536

section Residue

theorem residue_spec (n : Nat) :
    residue n ≤ 65535 ∧ residue n % 65535 = n % 65535 ∧ (residue n = 0 ↔ n = 0) := by
  unfold residue
  split <;> omega

theorem residue_unique {v n : Nat} (hle : v ≤ 65535) (hmod : v % 65535 = n % 65535)
    (hzero : v = 0 ↔ n = 0) : v = residue n := by
  have h := residue_spec n
  omega

theorem residue_congr {m n : Nat} (hmod : m % 65535 = n % 65535) (hzero : m = 0 ↔ n = 0) :
    residue m = residue n := by
  have h := residue_spec m
  exact residue_unique h.1 (h.2.1.trans hmod) (h.2.2.trans hzero)

theorem residue_fold (n : Nat) : residue (fold n) = residue n :=
  residue_congr (by unfold fold; omega) (by unfold fold; omega)

/-- Two steps are enough for a 32-bit sum. -/
theorem fold_fold {n : Nat} (h : n < 2 ^ 32) : fold (fold n) = residue n := by
  rw [← residue_fold n, ← residue_fold (fold n)]
  exact residue_unique (by unfold fold; omega) rfl Iff.rfl

theorem addWord_residue (n : Nat) {w : Nat} (h : w < 65536) :
    addWord (residue n) w = residue (n + w) := by
  have hn := residue_spec n
  refine residue_unique ?_ ?_ ?_ <;> unfold addWord <;> omega

end Residue

section Sums

theorem mem_words_lt (bs : List UInt8) {w : Nat} (h : w ∈ words bs) : w < 65536 := by
  induction bs using words.induct with
  | case1 => cases h
  | case2 a =>
    have ha := a.toNat_lt
    rw [words, List.mem_singleton] at h
    omega
  | case3 a b rest ih =>
    have ha := a.toNat_lt
    have hb := b.toNat_lt
    rw [words, List.mem_cons] at h
    rcases h with rfl | h
    · omega
    · exact ih h

theorem foldl_addWord (ws : List Nat) (h : ∀ w ∈ ws, w < 65536) (n : Nat) :
    ws.foldl addWord (residue n) = residue (n + ws.sum) := by
  induction ws generalizing n with
  | nil => rfl
  | cons w ws ih =>
    rw [List.foldl_cons, addWord_residue n (h w List.mem_cons_self),
      ih (fun v hv => h v (List.mem_cons_of_mem w hv)), List.sum_cons, Nat.add_assoc]

theorem onesSum_eq (bs : List UInt8) : onesSum bs = residue (total bs) := by
  have hsum := foldl_addWord (words bs) (fun _ => mem_words_lt bs) 0
  rwa [Nat.zero_add] at hsum

theorem valid_iff (bs : List UInt8) : Valid bs ↔ total bs % 65535 = 0 ∧ 0 < total bs := by
  have h := residue_spec (total bs)
  rw [Valid, onesSum_eq]
  omega

theorem total_append {front : List UInt8} (heven : front.length % 2 = 0)
    (back : List UInt8) : total (front ++ back) = total front + total back := by
  induction front using words.induct with
  | case1 => simp [total, words]
  | case2 a => simp at heven
  | case3 a b rest ih =>
    have hrest : rest.length % 2 = 0 := by
      simp only [List.length_cons] at heven
      omega
    have hih := ih hrest
    simp only [total, List.cons_append, words, List.sum_cons] at hih ⊢
    omega

@[simp] theorem total_nil : total [] = 0 := rfl

@[simp] theorem total_pair (a b : UInt8) (rest : List UInt8) :
    total (a :: b :: rest) = a.toNat * 256 + b.toNat + total rest := rfl

@[simp] theorem total_single (a : UInt8) : total [a] = a.toNat * 256 := by
  simp [total, words]

end Sums

end Lib.OnesComplement
