import Nylon.Lib.Go
import Mathlib.Data.List.Perm.Basic

/-!
Slices that are filled, emptied and filled again. What a truncated slice had is still in
its array, behind its length.
-/

namespace Lib

/-- What a pointer points to; `none` is `nil`. -/
def Go.deref {α : Type} : Option α → Go α
  | some a => .ok a
  | none => .error (.call "invalid memory address or nil pointer dereference")

theorem Go.mapM_deref {α : Type} (l : List α) : (l.map some).mapM Go.deref = .ok l := by
  induction l with
  | nil => rfl
  | cons a rest ih =>
    rw [List.map_cons, List.mapM_cons, ih]
    rfl

namespace Slice

variable {α : Type}

def empty : Slice α := ⟨[], []⟩

/-- `append(s, a)`, in the array of the slice as long as it has room. -/
def append (s : Slice α) (a : α) : Slice α := ⟨s.data ++ [a], s.spare.drop 1⟩

def fill (s : Slice α) (a : α) : Slice α := ⟨s.data.map fun _ => a, s.spare⟩

/-- `s[:0]`. -/
def truncate (s : Slice α) : Slice α := ⟨[], s.all⟩

@[simp] theorem data_empty : (empty : Slice α).data = [] := rfl

@[simp] theorem data_append (s : Slice α) (a : α) : (s.append a).data = s.data ++ [a] := rfl

@[simp] theorem data_truncate (s : Slice α) : s.truncate.data = [] := rfl

theorem data_foldl_append {β : Type} (f : β → α) (l : List β) (s : Slice α) :
    (l.foldl (fun s b => s.append (f b)) s).data = s.data ++ l.map f := by
  induction l generalizing s with
  | nil => simp
  | cons b rest ih => simp [ih]

end Slice

/-- A loop that emits nothing. -/
theorem flatMap_nothing {α β : Type} (l : List α) : (l.flatMap fun _ => ([] : List β)) = [] :=
  List.flatMap_eq_nil_iff.mpr fun _ _ => rfl

/-- Related values can be chosen for the elements of a list, one by one. -/
theorem exists_forall₂ {α β : Type} {R : α → β → Prop} {l : List α}
    (h : ∀ a ∈ l, ∃ b, R a b) : ∃ l', List.Forall₂ R l l' := by
  induction l with
  | nil => exact ⟨[], .nil⟩
  | cons a rest ih =>
    obtain ⟨b, hb⟩ := h a List.mem_cons_self
    obtain ⟨rest', hrest⟩ := ih fun a' ha' => h a' (List.mem_cons_of_mem _ ha')
    exact ⟨b :: rest', .cons hb hrest⟩

section Keys

variable {κ α β : Type} [DecidableEq κ]

/-- Taking the elements key by key rearranges them. -/
theorem flatMap_filter_perm {keys : List κ} (hnodup : keys.Nodup) (key : α → κ) {l : List α}
    (hcover : ∀ a ∈ l, key a ∈ keys) :
    (keys.flatMap fun k => l.filter fun a => key a = k).Perm l := by
  induction keys generalizing l with
  | nil =>
    rw [List.eq_nil_iff_forall_not_mem.mpr fun a ha => List.not_mem_nil (hcover a ha)]
    exact List.Perm.refl _
  | cons k rest ih =>
    obtain ⟨hk, hrest⟩ := List.nodup_cons.mp hnodup
    -- the elements with another key are those that the other keys take
    have hothers : ∀ k' ∈ rest, (l.filter fun a => ¬ key a = k).filter (fun a => key a = k') =
        l.filter fun a => key a = k' := by
      intro k' hk'
      rw [List.filter_filter]
      apply List.filter_congr
      intro a _
      by_cases heq : key a = k'
      · have hne : k' ≠ k := fun h => hk (h ▸ hk')
        simp [heq, hne]
      · simp [heq]
    have hcover' : ∀ a ∈ l.filter fun a => ¬ key a = k, key a ∈ rest := by
      intro a ha
      rw [List.mem_filter] at ha
      exact (List.mem_cons.mp (hcover a ha.1)).resolve_left (by simpa using ha.2)
    rw [List.flatMap_cons]
    have hperm := ih hrest hcover'
    rw [List.flatMap_congr fun k' hk' => hothers k' hk'] at hperm
    refine (hperm.append_left _).trans ?_
    simpa using List.filter_append_perm (fun a => decide (key a = k)) l

/-- What only one key contributes to. -/
theorem flatMap_of_single {keys : List κ} (hnodup : keys.Nodup) (f : κ → List β) (key : κ)
    (hothers : ∀ k ∈ keys, k ≠ key → f k = []) (habsent : key ∉ keys → f key = []) :
    keys.flatMap f = f key := by
  induction keys with
  | nil => exact (habsent List.not_mem_nil).symm
  | cons k rest ih =>
    obtain ⟨hk, hrest⟩ := List.nodup_cons.mp hnodup
    rw [List.flatMap_cons]
    by_cases heq : k = key
    · subst heq
      have hnone : rest.flatMap f = [] := by
        rw [List.flatMap_eq_nil_iff]
        intro k' hk'
        exact hothers k' (List.mem_cons_of_mem _ hk') fun h => hk (h ▸ hk')
      rw [hnone, List.append_nil]
    · rw [hothers k List.mem_cons_self heq, List.nil_append]
      refine ih hrest (fun k' hk' => hothers k' (List.mem_cons_of_mem _ hk')) fun hnot => ?_
      exact habsent fun h => (List.mem_cons.mp h).elim (fun h => heq h.symm) hnot

end Keys

end Lib
