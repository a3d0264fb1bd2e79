import Nylon.Lib.OnesComplement
import Nylon.Polyamide.FakeTCP
import Nylon.Polyamide.PacketSpec

/-!
`FoldPayloadChecksum` (`polyamide/faketcp/carrier.go`), the sum that a data carrier
stores in its meta field. It adds 32-bit words and folds the 64-bit total at the end;
the result is the one's-complement sum of the 16-bit words.
-/

namespace Nylon.Polyamide

open Lib OnesComplement

variable {payload : Bytes} {sum : UInt64}

/-- `uint64(binary.BigEndian.Uint32(payload[i : i+4]))`. -/
def word32 (payload : Bytes) (i : Nat) : UInt64 :=
  (be32 ((payload.take (i + 4)).drop i)).toUInt64

/-- The loop over blocks of eight words. -/
def addBlocks (sum : UInt64) (payload : Bytes) : UInt64 × Bytes :=
  if 32 ≤ payload.length then
    addBlocks (sum + word32 payload 0 + word32 payload 4 + word32 payload 8 +
      word32 payload 12 + word32 payload 16 + word32 payload 20 + word32 payload 24 +
      word32 payload 28) (payload.drop 32)
  else (sum, payload)
termination_by payload.length
decreasing_by simp; omega

/-- The loop over single words. -/
def addWords (sum : UInt64) (payload : Bytes) : UInt64 × Bytes :=
  if 4 ≤ payload.length then addWords (sum + word32 payload 0) (payload.drop 4)
  else (sum, payload)
termination_by payload.length
decreasing_by simp; omega

/-- The bytes behind the last whole word. -/
def addTail (sum : UInt64) (payload : Bytes) : UInt64 :=
  let pair := if 2 ≤ payload.length then
    (sum + (be16 (payload.take 2)).toUInt64, payload.drop 2) else (sum, payload)
  match pair with
  | (sum, [last]) => sum + last.toUInt64 <<< 8
  | (sum, _) => sum

theorem toNat_carries (sum : UInt64) :
    ((sum &&& (0xffff : UInt64)) + (sum >>> 16)).toNat = fold sum.toNat := by
  have h := sum.toNat_lt
  have hand : (sum &&& (0xffff : UInt64)).toNat = sum.toNat % 65536 :=
    (UInt64.toNat_and sum 0xffff).trans (Nat.and_two_pow_sub_one_eq_mod sum.toNat 16)
  have hshift : (sum >>> 16).toNat = sum.toNat / 65536 := by
    rw [UInt64.toNat_shiftRight]
    exact Nat.shiftRight_eq_div_pow sum.toNat 16
  rw [UInt64.toNat_add, hand, hshift, fold]
  omega

theorem shiftRight_ne_zero_iff (sum : UInt64) : sum >>> 16 ≠ 0 ↔ 65536 ≤ sum.toNat := by
  have hshift : (sum >>> 16).toNat = sum.toNat / 65536 := by
    rw [UInt64.toNat_shiftRight]
    exact Nat.shiftRight_eq_div_pow sum.toNat 16
  rw [Ne, ← UInt64.toNat_inj, hshift]
  show ¬ sum.toNat / 65536 = 0 ↔ _
  omega

/-- The final loop. It ends: a sum with carries gets smaller. -/
def foldCarries (sum : UInt64) : UInt64 :=
  if sum >>> 16 ≠ 0 then foldCarries ((sum &&& (0xffff : UInt64)) + (sum >>> 16)) else sum
termination_by sum.toNat
decreasing_by
  rename_i h
  rw [shiftRight_ne_zero_iff] at h
  rw [toNat_carries, fold]
  omega

def FoldPayloadChecksum (payload : Bytes) : UInt16 :=
  let (sum, payload) := addBlocks 0 payload
  let (sum, payload) := addWords sum payload
  (foldCarries (addTail sum payload)).toUInt16

/-- What the loops keep. The sum and the bytes that are still to be added stand for
the same 16-bit number as before, and every byte raises the sum by less than 2^30, so
that the sum does not overflow. -/
structure Continues (sum : UInt64) (payload : Bytes) (sum' : UInt64) (payload' : Bytes) : Prop where
  residue : residue (sum'.toNat + total payload') = residue (sum.toNat + total payload)
  bound : sum'.toNat + payload'.length * 2 ^ 30 ≤ sum.toNat + payload.length * 2 ^ 30

theorem Continues.refl (sum : UInt64) (payload : Bytes) :
    Continues sum payload sum payload := ⟨rfl, le_rfl⟩

theorem Continues.trans {s s' s'' : UInt64} {p p' p'' : Bytes} (h : Continues s p s' p')
    (h' : Continues s' p' s'' p'') : Continues s p s'' p'' :=
  ⟨h'.residue.trans h.residue, h'.bound.trans h.bound⟩

theorem toNat_be32 (a b c d : UInt8) : (be32 [a, b, c, d]).toNat =
    (a.toNat * 256 + b.toNat) * 65536 + (c.toNat * 256 + d.toNat) := by
  have ha := a.toNat_lt
  have hb := b.toNat_lt
  have hc := c.toNat_lt
  have hd := d.toNat_lt
  simp only [be32, beNat, List.foldl_cons, List.foldl_nil, UInt32.toNat_ofNat']
  omega

theorem continues_word (hlen : 4 ≤ payload.length)
    (hroom : sum.toNat + payload.length * 2 ^ 30 < 2 ^ 64) :
    Continues sum payload (sum + word32 payload 0) (payload.drop 4) := by
  obtain ⟨a, b, c, d, rest, rfl⟩ := exists_word hlen
  have ha := a.toNat_lt
  have hb := b.toNat_lt
  have hc := c.toNat_lt
  have hd := d.toNat_lt
  have hword : (word32 (a :: b :: c :: d :: rest) 0).toNat =
      (a.toNat * 256 + b.toNat) * 65536 + (c.toNat * 256 + d.toNat) := by
    rw [word32, UInt32.toNat_toUInt64]
    exact toNat_be32 a b c d
  simp only [List.length_cons] at hroom
  have hsum : (sum + word32 (a :: b :: c :: d :: rest) 0).toNat =
      sum.toNat + ((a.toNat * 256 + b.toNat) * 65536 + (c.toNat * 256 + d.toNat)) := by
    rw [UInt64.toNat_add, hword]
    omega
  refine ⟨?_, ?_⟩
  · rw [hsum, total_pair, total_pair]
    apply residue_congr <;> simp only [List.drop_succ_cons, List.drop_zero] <;> omega
  · rw [hsum]
    simp only [List.length_cons, List.drop_succ_cons, List.drop_zero]
    omega

/-- One round of the loop over single words. -/
def addWord32 (state : UInt64 × Bytes) : UInt64 × Bytes :=
  (state.1 + word32 state.2 0, state.2.drop 4)

theorem continues_iterate (hroom : sum.toNat + payload.length * 2 ^ 30 < 2 ^ 64) (n : Nat)
    (hlen : n * 4 ≤ payload.length) :
    Continues sum payload (addWord32^[n] (sum, payload)).1 (addWord32^[n] (sum, payload)).2 ∧
      (addWord32^[n] (sum, payload)).2 = payload.drop (n * 4) := by
  induction n with
  | zero => exact ⟨Continues.refl sum payload, rfl⟩
  | succ n ih =>
    obtain ⟨hbefore, hrest⟩ := ih (by omega)
    rw [Function.iterate_succ_apply']
    refine ⟨hbefore.trans (continues_word ?_ (hbefore.bound.trans_lt hroom)), ?_⟩
    · rw [hrest, List.length_drop]
      omega
    · rw [addWord32, hrest, List.drop_drop, Nat.succ_mul]

theorem word32_drop (payload : Bytes) (i : Nat) : word32 payload i = word32 (payload.drop i) 0 := by
  rw [word32, word32, List.drop_take, Nat.zero_add, List.drop_zero, Nat.add_sub_cancel_left]

theorem continues_block (hlen : 32 ≤ payload.length)
    (hroom : sum.toNat + payload.length * 2 ^ 30 < 2 ^ 64) :
    Continues sum payload (sum + word32 payload 0 + word32 payload 4 + word32 payload 8 +
      word32 payload 12 + word32 payload 16 + word32 payload 20 + word32 payload 24 +
      word32 payload 28) (payload.drop 32) := by
  have h := (continues_iterate hroom 8 hlen).1
  simp only [Function.iterate_succ, Function.iterate_zero, Function.comp_apply, addWord32,
    List.drop_drop, id_eq, Nat.reduceAdd] at h
  rw [word32_drop payload 4, word32_drop payload 8, word32_drop payload 12,
    word32_drop payload 16, word32_drop payload 20, word32_drop payload 24,
    word32_drop payload 28]
  exact h

theorem continues_addBlocks (hroom : sum.toNat + payload.length * 2 ^ 30 < 2 ^ 64) :
    Continues sum payload (addBlocks sum payload).1 (addBlocks sum payload).2 := by
  induction sum, payload using addBlocks.induct with
  | case1 sum payload hlen ih =>
    have hblock := continues_block hlen hroom
    rw [addBlocks, if_pos hlen]
    exact hblock.trans (ih (hblock.bound.trans_lt hroom))
  | case2 sum payload hlen =>
    rw [addBlocks, if_neg hlen]
    exact Continues.refl sum payload

theorem continues_addWords (hroom : sum.toNat + payload.length * 2 ^ 30 < 2 ^ 64) :
    Continues sum payload (addWords sum payload).1 (addWords sum payload).2 ∧
      (addWords sum payload).2.length < 4 := by
  induction sum, payload using addWords.induct with
  | case1 sum payload hlen ih =>
    have hword := continues_word hlen hroom
    obtain ⟨hrest, hshort⟩ := ih (hword.bound.trans_lt hroom)
    rw [addWords, if_pos hlen]
    exact ⟨hword.trans hrest, hshort⟩
  | case2 sum payload hlen =>
    rw [addWords, if_neg hlen]
    exact ⟨Continues.refl sum payload, Nat.lt_of_not_le hlen⟩

theorem toNat_add_last (sum : UInt64) (b : UInt8) (hroom : sum.toNat + 2 ^ 30 < 2 ^ 64) :
    (sum + b.toUInt64 <<< 8).toNat = sum.toNat + b.toNat * 256 := by
  have hb := b.toNat_lt
  have hshift : (b.toUInt64 <<< 8).toNat = b.toNat * 256 := by
    have height : (8 : UInt64).toNat % 64 = 8 := rfl
    rw [UInt64.toNat_shiftLeft, UInt8.toNat_toUInt64, height, Nat.shiftLeft_eq]
    omega
  rw [UInt64.toNat_add, hshift]
  omega

theorem toNat_add_pair (sum : UInt64) (a b : UInt8) (hroom : sum.toNat + 2 ^ 31 < 2 ^ 64) :
    (sum + (be16 [a, b]).toUInt64).toNat = sum.toNat + (a.toNat * 256 + b.toNat) := by
  have ha := a.toNat_lt
  have hb := b.toNat_lt
  rw [UInt64.toNat_add, UInt16.toNat_toUInt64, toNat_be16]
  omega

theorem toNat_addTail_one (a : UInt8) (hroom : sum.toNat + 2 ^ 30 < 2 ^ 64) :
    (addTail sum [a]).toNat = sum.toNat + total [a] := by
  rw [show addTail sum [a] = sum + a.toUInt64 <<< 8 from rfl, total_single]
  exact toNat_add_last sum a hroom

theorem toNat_addTail_two (a b : UInt8) (hroom : sum.toNat + 2 ^ 31 < 2 ^ 64) :
    (addTail sum [a, b]).toNat = sum.toNat + total [a, b] := by
  rw [show addTail sum [a, b] = sum + (be16 [a, b]).toUInt64 from rfl, total_pair, total_nil,
    Nat.add_zero]
  exact toNat_add_pair sum a b hroom

theorem toNat_addTail_three (a b c : UInt8) (hroom : sum.toNat + 2 ^ 32 < 2 ^ 64) :
    (addTail sum [a, b, c]).toNat = sum.toNat + total [a, b, c] := by
  have hpair := toNat_add_pair sum a b (by omega)
  have ha := a.toNat_lt
  have hb := b.toNat_lt
  rw [show addTail sum [a, b, c] = sum + (be16 [a, b]).toUInt64 + c.toUInt64 <<< 8 from rfl,
    toNat_add_last _ c (by omega), hpair, total_pair, total_single]
  omega

theorem toNat_addTail (hshort : payload.length < 4) (hroom : sum.toNat + 2 ^ 32 < 2 ^ 64) :
    (addTail sum payload).toNat = sum.toNat + total payload := by
  match payload, hshort with
  | [], _ => rfl
  | [a], _ => exact toNat_addTail_one a (by omega)
  | [a, b], _ => exact toNat_addTail_two a b (by omega)
  | [a, b, c], _ => exact toNat_addTail_three a b c hroom

theorem toNat_foldCarries (sum : UInt64) : (foldCarries sum).toNat = residue sum.toNat := by
  induction sum using foldCarries.induct with
  | case1 sum hcarry ih =>
    rw [foldCarries, if_pos hcarry, ih, toNat_carries, residue_fold]
  | case2 sum hcarry =>
    rw [foldCarries, if_neg hcarry]
    rw [shiftRight_ne_zero_iff] at hcarry
    exact residue_unique (by omega) rfl Iff.rfl

/-- The checksum of a payload is the one's-complement sum of its 16-bit words. -/
theorem toNat_foldPayloadChecksum (h : payload.length < 2 ^ 33) :
    (FoldPayloadChecksum payload).toNat = residue (total payload) := by
  have hzero : (0 : UInt64).toNat = 0 := rfl
  have hroom : (0 : UInt64).toNat + payload.length * 2 ^ 30 < 2 ^ 64 := by omega
  have hblocks := continues_addBlocks hroom
  obtain ⟨hwords, hshort⟩ := continues_addWords (hblocks.bound.trans_lt hroom)
  have hall := hblocks.trans hwords
  have hsmall : (addWords (addBlocks 0 payload).1 (addBlocks 0 payload).2).1.toNat + 2 ^ 32 <
      2 ^ 64 := by
    have hbound := hall.bound
    omega
  have hle := (residue_spec (total payload)).1
  show (UInt64.toUInt16 _).toNat = _
  rw [UInt64.toNat_toUInt16, toNat_foldCarries, toNat_addTail hshort hsmall, hall.residue,
    hzero, Nat.zero_add]
  omega

/-- One round of the final loop. -/
def addCarries (sum : UInt64) : UInt64 := (sum &&& (0xffff : UInt64)) + (sum >>> 16)

/-- The loop ends after some number of rounds, with the value of the last one. -/
theorem foldCarries_rounds (sum : UInt64) :
    ∃ rounds, (∀ k < rounds, addCarries^[k] sum >>> 16 ≠ 0) ∧
      addCarries^[rounds] sum >>> 16 = 0 ∧ foldCarries sum = addCarries^[rounds] sum := by
  induction sum using foldCarries.induct with
  | case1 sum hcarry ih =>
    obtain ⟨rounds, hrun, hstop, hvalue⟩ := ih
    refine ⟨rounds + 1, ?_, hstop, ?_⟩
    · intro k hk
      cases k with
      | zero => exact hcarry
      | succ k => exact hrun k (Nat.lt_of_succ_lt_succ hk)
    · rw [foldCarries, if_pos hcarry]
      exact hvalue
  | case2 sum hcarry =>
    refine ⟨0, fun k hk => absurd hk (Nat.not_lt_zero k), not_not.mp hcarry, ?_⟩
    rw [foldCarries, if_neg hcarry]
    rfl

/-- The 64-bit sum that the final loop starts from. -/
def payloadSum (payload : Bytes) : UInt64 :=
  let (sum, payload) := addBlocks 0 payload
  let (sum, payload) := addWords sum payload
  addTail sum payload

/-- The checksum of a datagram's bytes is what adding its 16-bit words one by one with
end-around carry gives, and the loop that folds the carries ends. -/
theorem foldPayloadChecksum_plain {payload : Bytes} (h : payload.length ≤ 65535) :
    (FoldPayloadChecksum payload).toNat = onesSum payload ∧
      ∃ rounds, (∀ k < rounds, addCarries^[k] (payloadSum payload) >>> 16 ≠ 0) ∧
        addCarries^[rounds] (payloadSum payload) >>> 16 = 0 ∧
        FoldPayloadChecksum payload = (addCarries^[rounds] (payloadSum payload)).toUInt16 := by
  have hsmall : payload.length < 2 ^ 33 := h.trans_lt (by decide)
  refine ⟨?_, ?_⟩
  · rw [toNat_foldPayloadChecksum hsmall, onesSum_eq]
  · obtain ⟨rounds, hrun, hstop, hvalue⟩ := foldCarries_rounds (payloadSum payload)
    refine ⟨rounds, hrun, hstop, ?_⟩
    rw [← hvalue]
    rfl

theorem foldPayloadChecksum_plain_odd : [0xff, 0xff, 0x12].length ≤ 65535 ∧
    (FoldPayloadChecksum [0xff, 0xff, 0x12]).toNat = onesSum [0xff, 0xff, 0x12] :=
  ⟨by decide, (foldPayloadChecksum_plain (by decide)).1⟩

end Nylon.Polyamide
