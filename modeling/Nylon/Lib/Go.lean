import Mathlib.Data.List.Basic
import Mathlib.Tactic

/-!
Go's panics and slices. A `Slice` is the visible part of an array together with
the elements behind it, up to the capacity: indexing is checked against the
length, slicing against the capacity. Writes through a slice of a slice are
writes to the array at the sum of the offsets.
-/

namespace Lib

variable {α β : Type}

inductive Panic where
  | indexOutOfRange
  | sliceBounds
  | call (msg : String)
  deriving DecidableEq, Repr

/-- A computation that returns or panics. -/
abbrev Go := Except Panic

@[simp] theorem Go.ok_bind (a : α) (f : α → Go β) : (Except.ok a >>= f : Go β) = f a :=
  rfl

theorem Go.bind_pure_ok_iff (x : Go α) (f : α → β) :
    (∃ r, (x >>= fun a => pure (f a) : Go β) = .ok r) ↔ ∃ a, x = .ok a := by
  cases x with
  | ok a => exact iff_of_true ⟨_, rfl⟩ ⟨a, rfl⟩
  | error p => simp [bind, Except.bind]

/-- A loop returns exactly if every iteration does, provided that whether an
iteration returns does not depend on what the earlier ones computed. -/
theorem Go.foldlM_ok_iff {f : β → α → Go β} {P : α → Prop}
    (hf : ∀ acc a, (∃ r, f acc a = .ok r) ↔ P a) (acc : β) (l : List α) :
    (∃ r, l.foldlM f acc = .ok r) ↔ ∀ a ∈ l, P a := by
  induction l generalizing acc with
  | nil => simp [pure, Except.pure]
  | cons a rest ih =>
    rw [List.foldlM_cons, List.forall_mem_cons, ← hf acc a]
    cases hfirst : f acc a with
    | ok next => simp [ih next]
    | error p => simp [bind, Except.bind]

/-- `l[i]`, where a list stands for the visible part of a slice. -/
def Go.elem {α : Type} (l : List α) (i : Int) : Go α :=
  if i < 0 then .error .indexOutOfRange
  else match l[i.toNat]? with
    | some v => .ok v
    | none => .error .indexOutOfRange

theorem Go.elem_eq_ok {l : List α} {i : Int} (hi : 0 ≤ i) (hlt : i < l.length) :
    ∃ v, Go.elem l i = .ok v ∧ l[i.toNat]? = some v := by
  have hin : i.toNat < l.length := by omega
  refine ⟨l[i.toNat], ?_, List.getElem?_eq_getElem hin⟩
  rw [Go.elem, if_neg (by omega), List.getElem?_eq_getElem hin]

/-- The destination after `copy(dst, src)`. -/
def copyTo {α : Type} (dst src : List α) : List α :=
  src.take dst.length ++ dst.drop src.length

/-- Two computations that return related values or panic alike. -/
inductive Go.Rel {α β : Type} (R : α → β → Prop) : Go α → Go β → Prop
  | ok {a : α} {b : β} (h : R a b) : Rel R (.ok a) (.ok b)
  | panic (p : Panic) : Rel R (.error p) (.error p)

theorem Go.Rel.bind {γ δ : Type} {R : α → β → Prop} {S : γ → δ → Prop} {x : Go α}
    {y : Go β} {f : α → Go γ} {g : β → Go δ} (h : Rel R x y)
    (hnext : ∀ a b, R a b → Rel S (f a) (g b)) : Rel S (x >>= f) (y >>= g) := by
  cases h with
  | ok h => exact hnext _ _ h
  | panic p => exact .panic p

theorem Go.Rel.elem {R : α → β → Prop} {l : List α} {l' : List β}
    (h : List.Forall₂ R l l') (i : Int) : Rel R (Go.elem l i) (Go.elem l' i) := by
  unfold Go.elem
  split
  · exact .panic _
  · by_cases hin : i.toNat < l.length
    · have hin' : i.toNat < l'.length := h.length_eq ▸ hin
      rw [List.getElem?_eq_getElem hin, List.getElem?_eq_getElem hin']
      exact .ok (h.get hin hin')
    · have hout : l'.length ≤ i.toNat := h.length_eq ▸ Nat.le_of_not_lt hin
      rw [List.getElem?_eq_none (Nat.le_of_not_lt hin), List.getElem?_eq_none hout]
      exact .panic _

structure Slice (α : Type) where
  data : List α
  spare : List α
  deriving DecidableEq, Repr

namespace Slice

variable {α : Type} {elems vs : List α} {n i low : Nat} {s : Slice α}

def len (s : Slice α) : Nat := s.data.length

/-- Everything up to the capacity, `s[:cap(s)]`. -/
def all (s : Slice α) : List α := s.data ++ s.spare

/-- The first `n` elements of an array, with the others as capacity. -/
def ofAll (elems : List α) (n : Nat) : Slice α := ⟨elems.take n, elems.drop n⟩

/-- `s[i]`. -/
def index (s : Slice α) (i : Nat) : Go α :=
  match s.data[i]? with
  | some v => .ok v
  | none => .error .indexOutOfRange

/-- The elements of `s[low:high]`. -/
def sub (s : Slice α) (low high : Nat) : Go (List α) :=
  if low ≤ high ∧ high ≤ s.all.length then .ok ((s.all.take high).drop low)
  else .error .sliceBounds

/-- The elements of `s[low:]`. -/
def after (s : Slice α) (low : Nat) : Go (List α) := s.sub low s.len

/-- `s[:n]`. -/
def upTo (s : Slice α) (n : Nat) : Go (Slice α) :=
  if n ≤ s.all.length then .ok (ofAll s.all n) else .error .sliceBounds

/-- The array after `vs` is written at `i`. -/
def overwrite (elems : List α) (i : Nat) (vs : List α) : List α :=
  elems.take i ++ vs ++ elems.drop (i + vs.length)

/-- Writes `vs` to `s[i : i + len(vs)]`. -/
def patch (s : Slice α) (i : Nat) (vs : List α) : Go (Slice α) :=
  if i + vs.length ≤ s.all.length then .ok (ofAll (overwrite s.all i vs) s.len)
  else .error .sliceBounds

/-- `s[i] = v`. -/
def setIndex (s : Slice α) (i : Nat) (v : α) : Go (Slice α) :=
  if i < s.len then .ok (ofAll (overwrite s.all i [v]) s.len)
  else .error .indexOutOfRange

@[simp] theorem all_ofAll (elems : List α) (n : Nat) : (ofAll elems n).all = elems :=
  List.take_append_drop n elems

@[simp] theorem ofAll_all_len (s : Slice α) : ofAll s.all s.len = s := by
  simp [ofAll, all, len]

theorem len_ofAll (h : n ≤ elems.length) : (ofAll elems n).len = n := by
  simp [len, ofAll, h]

theorem len_le_all (s : Slice α) : s.len ≤ s.all.length := by
  simp [len, all]

theorem length_overwrite
    (h : i + vs.length ≤ elems.length) : (overwrite elems i vs).length = elems.length := by
  simp only [overwrite, List.length_append, List.length_take, List.length_drop]
  omega

theorem overwrite_take (vs : List α) (hi : i ≤ elems.length) (hn : n ≤ i) :
    (overwrite elems i vs).take n = elems.take n := by
  unfold overwrite
  rw [List.append_assoc, List.take_append_of_le_length (by simp; omega), List.take_take,
    Nat.min_eq_left hn]

theorem overwrite_drop (h : i + vs.length ≤ elems.length) (hn : i + vs.length ≤ n) :
    (overwrite elems i vs).drop n = elems.drop n := by
  unfold overwrite
  have hlen : (elems.take i ++ vs).length = i + vs.length := by
    rw [List.length_append, List.length_take]
    omega
  rw [List.drop_append, hlen, List.drop_of_length_le (by omega), List.nil_append, List.drop_drop]
  congr 1
  omega

/-- What has been written is read back. -/
theorem overwrite_sub_self {high : Nat} (vs : List α)
    (hi : i ≤ elems.length) (hhigh : high = i + vs.length) :
    ((overwrite elems i vs).take high).drop i = vs := by
  subst hhigh
  have hlen : (elems.take i).length = i := by rw [List.length_take, Nat.min_eq_left hi]
  unfold overwrite
  rw [List.drop_take, List.append_assoc, List.drop_append_of_le_length hlen.ge,
    List.drop_of_length_le hlen.le, List.nil_append, Nat.add_sub_cancel_left,
    List.take_left]

/-- What lies behind a write is as before. -/
theorem overwrite_sub (h : i + vs.length ≤ elems.length) (hlow : i + vs.length ≤ low)
    (high : Nat) : ((overwrite elems i vs).take high).drop low =
      (elems.take high).drop low := by
  rw [List.drop_take, List.drop_take, overwrite_drop h hlow]

/-- A write behind the first element leaves that one alone. -/
theorem overwrite_headD (vs : List α) (hpos : 0 < i)
    (hi : i ≤ elems.length) (d : α) : (overwrite elems i vs).headD d = elems.headD d := by
  cases elems with
  | nil => simp at hi; omega
  | cons first rest =>
    obtain ⟨j, rfl⟩ := Nat.exists_eq_succ_of_ne_zero hpos.ne'
    rfl

theorem index_eq (h : i < s.len) : ∃ v, s.index i = .ok v ∧ s.all[i]? = some v := by
  have hget : s.data[i]? = some s.data[i] := List.getElem?_eq_getElem h
  refine ⟨s.data[i], by simp [index, hget], ?_⟩
  rw [all, List.getElem?_append_left h, hget]

theorem sub_eq {high : Nat} (hlow : low ≤ high) (hhigh : high ≤ s.all.length) :
    s.sub low high = .ok ((s.all.take high).drop low) :=
  if_pos ⟨hlow, hhigh⟩

theorem after_eq (h : low ≤ s.len) : s.after low = .ok (s.data.drop low) := by
  rw [after, sub_eq h s.len_le_all]
  simp [all, len]

/-- A write within the capacity changes the array and keeps the length. -/
theorem patch_eq (i : Nat) (vs : List α) (h : i + vs.length ≤ s.all.length) :
    ∃ s', s.patch i vs = .ok s' ∧ s'.all = overwrite s.all i vs ∧ s'.len = s.len := by
  refine ⟨_, if_pos h, all_ofAll _ _, len_ofAll ?_⟩
  rw [length_overwrite h]
  exact s.len_le_all

theorem overwrite_append (rest : List α) (h : i + vs.length ≤ elems.length) :
    overwrite (elems ++ rest) i vs = overwrite elems i vs ++ rest := by
  unfold overwrite
  rw [List.take_append_of_le_length (by omega), List.drop_append_of_le_length h,
    List.append_assoc, List.append_assoc, List.append_assoc]

/-- A write within the length changes the visible elements. -/
theorem patch_data (i : Nat) (vs : List α) (h : i + vs.length ≤ s.len) :
    ∃ s', s.patch i vs = .ok s' ∧ s'.data = overwrite s.data i vs := by
  refine ⟨_, if_pos (h.trans s.len_le_all), ?_⟩
  unfold ofAll all
  rw [overwrite_append s.spare h]
  exact List.take_left' (length_overwrite h)

theorem setIndex_eq (v : α) (h : i < s.len) :
    ∃ s', s.setIndex i v = .ok s' ∧ s'.all = overwrite s.all i [v] ∧ s'.len = s.len := by
  refine ⟨_, if_pos h, all_ofAll _ _, len_ofAll ?_⟩
  have hle := s.len_le_all
  rw [length_overwrite (by simp; omega)]
  exact hle

theorem setIndex_data (v : α) (h : i < s.len) :
    ∃ s', s.setIndex i v = .ok s' ∧ s'.data = overwrite s.data i [v] := by
  have hroom : i + [v].length ≤ s.data.length := h
  refine ⟨_, if_pos h, ?_⟩
  unfold ofAll all
  rw [overwrite_append s.spare hroom]
  exact List.take_left' (length_overwrite hroom)

/-- A write to the back part of an array. -/
theorem overwrite_shift (front elems : List α) (i : Nat) (vs : List α) :
    overwrite (front ++ elems) (front.length + i) vs = front ++ overwrite elems i vs := by
  unfold overwrite
  rw [List.take_length_add_append, Nat.add_assoc, List.drop_length_add_append,
    List.append_assoc, List.append_assoc, List.append_assoc]

theorem upTo_eq (h : n ≤ s.all.length) : ∃ s', s.upTo n = .ok s' ∧ s'.all = s.all ∧ s'.len = n :=
  ⟨_, if_pos h, all_ofAll _ _, len_ofAll h⟩

end Slice

end Lib
