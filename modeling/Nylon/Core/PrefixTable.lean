import Nylon.Lib.RangeLoop
import Nylon.State.Netip
import Mathlib.Data.List.MinMax

/-!
The routing table library (`bart.Table`) by its documented behaviour. A table
is a map whose keys are prefixes up to masking, and `lookup` is the longest
prefix match. The results about the forwarding tables hold for every such
table; `PrefixMap` is one to compute with.
-/

namespace Nylon.Core

open Netip Lib

class PrefixTable (T : Type → Type) where
  empty {α : Type} : T α
  insert {α : Type} : T α → Prefix → α → T α
  delete {α : Type} : T α → Prefix → T α
  get {α : Type} : T α → Prefix → Option α
  lookup {α : Type} : T α → Addr → Option α

/-- A table of which `v` is the value for the longest prefix with the address. -/
def IsLongestMatch {α : Type} (get : Prefix → Option α) (a : Addr) (v : α) : Prop :=
  ∃ p : Prefix, p.Masked ∧ p.contains a = true ∧ get p = some v ∧
    ∀ q : Prefix, q.Masked → q.contains a = true → (get q).isSome → q.bits ≤ p.bits

class LawfulPrefixTable (T : Type → Type) [PrefixTable T] : Prop where
  get_empty {α : Type} (p : Prefix) : PrefixTable.get (PrefixTable.empty : T α) p = none
  get_insert {α : Type} (t : T α) (p q : Prefix) (v : α) :
    PrefixTable.get (PrefixTable.insert t p v) q =
      if q.masked = p.masked then some v else PrefixTable.get t q
  get_delete {α : Type} (t : T α) (p q : Prefix) : PrefixTable.get (PrefixTable.delete t p) q =
      if q.masked = p.masked then none else PrefixTable.get t q
  lookup_eq_some {α : Type} (t : T α) (a : Addr) (v : α) :
    PrefixTable.lookup t a = some v ↔ IsLongestMatch (PrefixTable.get t) a v

theorem IsLongestMatch.unique {α : Type} {get : Prefix → Option α} {a : Addr}
    {v w : α} (hv : IsLongestMatch get a v) (hw : IsLongestMatch get a w) : v = w := by
  obtain ⟨p, hp, hpa, hpv, hpmax⟩ := hv
  obtain ⟨q, hq, hqa, hqw, hqmax⟩ := hw
  have hle := hpmax q hq hqa (by simp [hqw])
  have hge := hqmax p hp hpa (by simp [hpv])
  obtain rfl := Prefix.eq_of_contains hp hq (by omega) hpa hqa
  exact Option.some.inj (hpv.symm.trans hqw)

/-- Among the prefixes with the address there is a longest one. -/
theorem exists_isLongestMatch {α : Type} {get : Prefix → Option α} {a : Addr}
    {p : Prefix} (hp : p.Masked) (hpa : p.contains a = true) (hget : (get p).isSome) :
    ∃ v, IsLongestMatch get a v := by
  let lengths : Set Nat :=
    {n | ∃ q : Prefix, q.Masked ∧ q.contains a = true ∧ (get q).isSome ∧ q.bits = n}
  have hbounded : BddAbove lengths := by
    refine ⟨128, ?_⟩
    rintro n ⟨q, -, -, -, rfl⟩
    refine q.valid.trans ?_
    cases q.addr <;> simp [Addr.bitLen]
  obtain ⟨q, hq, hqa, hqget, hbits⟩ :=
    Nat.sSup_mem (s := lengths) ⟨p.bits, p, hp, hpa, hget, rfl⟩ hbounded
  obtain ⟨v, hv⟩ := Option.isSome_iff_exists.mp hqget
  refine ⟨v, q, hq, hqa, hv, fun r hr hra hrget => ?_⟩
  rw [hbits]
  exact le_csSup hbounded ⟨r, hr, hra, hrget, rfl⟩

/-- An association table whose keys are masked. -/
structure PrefixMap (α : Type) where
  entries : Table Prefix α
  masked : ∀ p v, entries.lookup p = some v → p.Masked

namespace PrefixMap

variable {α : Type}

def empty : PrefixMap α := ⟨∅, by simp⟩

def insert (t : PrefixMap α) (p : Prefix) (v : α) : PrefixMap α where
  entries := t.entries.insert p.masked v
  masked := by
    intro q w hq
    rw [Table.lookup_insert_eq] at hq
    split at hq
    · next heq => rw [heq]; exact p.masked_masked
    · exact t.masked q w hq

def delete (t : PrefixMap α) (p : Prefix) : PrefixMap α where
  entries := t.entries.erase p.masked
  masked := by
    intro q w hq
    rw [Table.lookup_erase_eq] at hq
    split at hq
    · cases hq
    · exact t.masked q w hq

def get (t : PrefixMap α) (p : Prefix) : Option α := t.entries.lookup p.masked

def lookup (t : PrefixMap α) (a : Addr) : Option α :=
  ((t.entries.entries.filter fun entry => entry.1.contains a).argmax
    fun entry => entry.1.bits).map (·.2)

instance : PrefixTable PrefixMap where
  empty := empty
  insert := insert
  delete := delete
  get := get
  lookup := lookup

theorem get_of_masked (t : PrefixMap α) {p : Prefix} (hp : p.Masked) :
    t.get p = t.entries.lookup p := by
  unfold get
  rw [hp]

theorem isLongestMatch_of_lookup (t : PrefixMap α) {a : Addr} {v : α}
    (h : t.lookup a = some v) : IsLongestMatch t.get a v := by
  obtain ⟨⟨p, w⟩, hargmax, rfl⟩ := Option.map_eq_some_iff.mp h
  obtain ⟨hmem, hcontains⟩ := List.mem_filter.mp (List.argmax_mem hargmax)
  have hp := (Table.mem_entries_iff t.entries p w).mp hmem
  have hmasked := t.masked p w hp
  refine ⟨p, hmasked, hcontains, by rw [t.get_of_masked hmasked, hp], ?_⟩
  intro q hq hqa hsome
  rw [t.get_of_masked hq] at hsome
  obtain ⟨u, hu⟩ := Option.isSome_iff_exists.mp hsome
  have hqmem : (⟨q, u⟩ : Σ _ : Prefix, α) ∈
      t.entries.entries.filter fun entry => entry.1.contains a :=
    List.mem_filter.mpr ⟨(Table.mem_entries_iff t.entries q u).mpr hu, hqa⟩
  exact List.le_of_mem_argmax (f := fun entry : Σ _ : Prefix, α => entry.1.bits) hqmem hargmax

theorem lookup_of_isLongestMatch (t : PrefixMap α) {a : Addr} {v : α}
    (h : IsLongestMatch t.get a v) : t.lookup a = some v := by
  cases hlookup : t.lookup a with
  | some w => rw [(t.isLongestMatch_of_lookup hlookup).unique h]
  | none =>
    obtain ⟨p, hp, hpa, hpv, _⟩ := h
    rw [t.get_of_masked hp] at hpv
    have hmem : (⟨p, v⟩ : Σ _ : Prefix, α) ∈
        t.entries.entries.filter fun entry => entry.1.contains a :=
      List.mem_filter.mpr ⟨(Table.mem_entries_iff t.entries p v).mpr hpv, hpa⟩
    unfold lookup at hlookup
    rw [Option.map_eq_none_iff, List.argmax_eq_none] at hlookup
    simp [hlookup] at hmem

instance : LawfulPrefixTable PrefixMap where
  get_empty _ := rfl
  get_insert t p q v := Table.lookup_insert_eq t.entries p.masked q.masked v
  get_delete t p q := Table.lookup_erase_eq t.entries p.masked q.masked
  lookup_eq_some t _ _ := ⟨t.isLongestMatch_of_lookup, t.lookup_of_isLongestMatch⟩

end PrefixMap

end Nylon.Core
