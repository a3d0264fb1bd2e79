import Mathlib.Data.List.AList

/-!
Association tables and loops over them. A `Table` is a finite map together
with the order in which a `for key, value := range` loop walks it; every key
is visited once. The loop rules below say what such a loop leaves behind in
terms of the entries of the table only, so results that use them hold for any
walk order.
-/

namespace Lib

abbrev Table (κ α : Type) := AList (fun _ : κ => α)

namespace Table

variable {κ α σ β : Type}

/-- `for key, value := range m { state = body(state, key, value) }`. -/
def range (m : Table κ α) (body : σ → κ → α → σ) (init : σ) : σ :=
  m.entries.foldl (fun state entry => body state entry.1 entry.2) init

private theorem foldl_frame (entries : List (Σ _ : κ, α))
    (body : σ → κ → α → σ) (obs : σ → β) (init : σ)
    (hframe : ∀ entry ∈ entries, ∀ state, obs (body state entry.1 entry.2) = obs state) :
    obs (entries.foldl (fun state entry => body state entry.1 entry.2) init) = obs init := by
  induction entries generalizing init with
  | nil => rfl
  | cons entry rest ih =>
    simp only [List.foldl_cons]
    rw [ih (body init entry.1 entry.2)
      (fun other member => hframe other (by simp [member]))]
    exact hframe entry (by simp) init

/-- A part of the loop state that evolves on its own. -/
theorem range_hom {τ : Type} (m : Table κ α) (proj : σ → τ)
    (body : σ → κ → α → σ) (body' : τ → κ → α → τ) (init : σ)
    (hbody : ∀ state k v, proj (body state k v) = body' (proj state) k v) :
    proj (m.range body init) = m.range body' (proj init) := by
  unfold range
  exact (List.foldl_hom proj fun state entry =>
    (hbody state entry.1 entry.2).symm).symm

private theorem pairs_injective :
    Function.Injective fun m : Table κ α => m.entries.map fun e => (e.1, e.2) := by
  intro m m' h
  apply AList.ext
  refine List.map_injective_iff.mpr ?_ h
  rintro ⟨k, v⟩ ⟨k', v'⟩ heq
  obtain ⟨rfl, rfl⟩ := Prod.mk.inj heq
  rfl

variable [DecidableEq κ]

theorem mem_entries_iff (m : Table κ α) (k : κ) (v : α) :
    (⟨k, v⟩ : Σ _ : κ, α) ∈ m.entries ↔ m.lookup k = some v := by
  simpa [AList.lookup, Option.mem_def] using
    (List.mem_dlookup_iff (β := fun _ : κ => α) m.nodupKeys).symm

/-- A statement about all entries can be checked entry by entry. -/
theorem forall_lookup {m : Table κ α} {P : κ → α → Prop}
    (h : ∀ entry ∈ m.entries, P entry.1 entry.2) :
    ∀ k v, m.lookup k = some v → P k v := by
  intro k v hlookup
  exact h ⟨k, v⟩ ((mem_entries_iff m k v).mpr hlookup)

instance decidableForallLookup (m : Table κ α) (P : κ → α → Prop) [∀ k v, Decidable (P k v)] :
    Decidable (∀ k v, m.lookup k = some v → P k v) :=
  decidable_of_iff (∀ entry ∈ m.entries, P entry.1 entry.2) ⟨forall_lookup, fun h entry member =>
      h entry.1 entry.2 ((mem_entries_iff m entry.1 entry.2).mp member)⟩

/-- Tables are compared as lists of pairs. -/
instance decidableEq [DecidableEq α] : DecidableEq (Table κ α) := fun m m' =>
  decidable_of_iff
    (m.entries.map (fun e => (e.1, e.2)) = m'.entries.map (fun e => (e.1, e.2)))
    pairs_injective.eq_iff

/-- A loop body that keeps an invariant keeps it for the whole loop. The body
only has to keep it for entries of the table. -/
theorem range_invariant (m : Table κ α) (body : σ → κ → α → σ) (init : σ)
    (inv : σ → Prop) (hinit : inv init)
    (hbody : ∀ state k v, m.lookup k = some v → inv state → inv (body state k v)) :
    inv (m.range body init) := by
  unfold range
  have hmem : ∀ entry ∈ m.entries, m.lookup entry.1 = some entry.2 :=
    fun entry => (mem_entries_iff m entry.1 entry.2).mp
  generalize m.entries = entries at hmem
  induction entries generalizing init with
  | nil => exact hinit
  | cons entry rest ih =>
    apply ih
    · exact hbody init entry.1 entry.2 (hmem entry (by simp)) hinit
    · intro other member
      exact hmem other (by simp [member])

/-- A loop whose iterations perform actions on a part of the state performs the
actions of all iterations. What an iteration does may depend on an invariant of
the loop state. -/
theorem range_actions {τ : Type} (m : Table κ α) (body : σ → κ → α → σ) (init : σ)
    (inv : σ → Prop) (part : σ → τ) (act : τ → β → τ) (actions : κ → α → List β)
    (hinit : inv init)
    (hbody : ∀ state k v, m.lookup k = some v → inv state →
      part (body state k v) = (actions k v).foldl act (part state) ∧ inv (body state k v)) :
    part (m.range body init) =
      (m.entries.flatMap fun entry => actions entry.1 entry.2).foldl act (part init) := by
  unfold range
  have hmem : ∀ entry ∈ m.entries, m.lookup entry.1 = some entry.2 :=
    fun entry => (mem_entries_iff m entry.1 entry.2).mp
  generalize m.entries = entries at hmem
  induction entries generalizing init with
  | nil => rfl
  | cons entry rest ih =>
    obtain ⟨hpart, hinv⟩ :=
      hbody init entry.1 entry.2 (hmem entry (by simp)) hinit
    rw [List.foldl_cons, List.flatMap_cons, List.foldl_append, ← hpart]
    exact ih _ hinv fun other member => hmem other (by simp [member])

/-- A loop that only appends to a log leaves the log of all its iterations. -/
theorem range_append (m : Table κ α) (body : σ → κ → α → σ) (init : σ)
    (inv : σ → Prop) (log : σ → List β) (emit : κ → α → List β)
    (hinit : inv init)
    (hbody : ∀ state k v, m.lookup k = some v → inv state →
      log (body state k v) = log state ++ emit k v ∧ inv (body state k v)) :
    log (m.range body init) =
      log init ++ m.entries.flatMap (fun entry => emit entry.1 entry.2) := by
  have hsnoc : ∀ l l' : List β, l'.foldl (fun l b => l ++ [b]) l = l ++ l' := by
    intro l l'
    induction l' generalizing l with
    | nil => simp
    | cons b rest ih => rw [List.foldl_cons, ih, List.append_assoc, List.singleton_append]
  rw [← hsnoc]
  refine range_actions m body init inv log _ emit hinit fun state k v hlookup hinv => ?_
  rw [hsnoc]
  exact hbody state k v hlookup hinv

/-- The pointwise rule. Let `obs` be a part of the loop state that only the
iteration at `key` can change. After the loop it is what that one iteration
makes of its initial value, or the initial value if the table has no such key. -/
theorem range_pointwise (m : Table κ α) (body : σ → κ → α → σ) (init : σ)
    (obs : σ → β) (key : κ) (f : α → β → β)
    (hat : ∀ state v, m.lookup key = some v → obs (body state key v) = f v (obs state))
    (hframe : ∀ state k v, m.lookup k = some v → k ≠ key → obs (body state k v) = obs state) :
    obs (m.range body init) =
      match m.lookup key with
      | some v => f v (obs init)
      | none => obs init := by
  have hothers : ∀ entry ∈ m.entries, entry.1 ≠ key → ∀ state,
      obs (body state entry.1 entry.2) = obs state := by
    intro entry member hne state
    exact hframe state entry.1 entry.2
      ((mem_entries_iff m entry.1 entry.2).mp member) hne
  cases hlookup : m.lookup key with
  | none =>
    apply foldl_frame m.entries body obs init
    intro entry member
    apply hothers entry member
    intro heq
    have hfound := (mem_entries_iff m entry.1 entry.2).mp member
    rw [heq, hlookup] at hfound
    cases hfound
  | some v =>
    have hmember := (mem_entries_iff m key v).mpr hlookup
    obtain ⟨front, back, hsplit⟩ := List.append_of_mem hmember
    have hnodup := m.nodupKeys
    rw [hsplit, List.nodupKeys_middle, List.nodupKeys_cons] at hnodup
    have hframe' : ∀ entry ∈ front ++ back, ∀ state,
        obs (body state entry.1 entry.2) = obs state := by
      intro entry member
      apply hothers entry
      · rw [hsplit]
        rcases List.mem_append.mp member with h | h <;> simp [h]
      · intro heq
        have hkey : entry.1 ∈ (front ++ back).keys := List.mem_keys_of_mem member
        rw [heq] at hkey
        exact hnodup.1 hkey
    unfold range
    rw [hsplit, List.foldl_append, List.foldl_cons]
    rw [foldl_frame back body obs _
      (fun entry member => hframe' entry (by simp [member]))]
    rw [hat _ v hlookup]
    rw [foldl_frame front body obs _
      (fun entry member => hframe' entry (by simp [member]))]

theorem mem_flatMap_entries (m : Table κ α) (emit : κ → α → List β) (x : β) :
    x ∈ m.entries.flatMap (fun entry => emit entry.1 entry.2) ↔
      ∃ k v, m.lookup k = some v ∧ x ∈ emit k v := by
  simp only [List.mem_flatMap]
  constructor
  · rintro ⟨⟨k, v⟩, member, hx⟩
    exact ⟨k, v, (mem_entries_iff m k v).mp member, hx⟩
  · rintro ⟨k, v, hlookup, hx⟩
    exact ⟨⟨k, v⟩, (mem_entries_iff m k v).mpr hlookup, hx⟩

/-- Among what all iterations emit, the part that only the iteration at `key`
contributes to is that of this iteration. -/
theorem filterMap_flatMap_entries {γ : Type} (m : Table κ α)
    (emit : κ → α → List β) (q : β → Option γ) (key : κ)
    (hother : ∀ k v, m.lookup k = some v → k ≠ key →
      (emit k v).filterMap q = []) :
    (m.entries.flatMap (fun entry => emit entry.1 entry.2)).filterMap q =
      match m.lookup key with
      | some v => (emit key v).filterMap q
      | none => [] := by
  have hloop := range_append m (fun log k v => log ++ emit k v) []
    (fun _ => True) id emit trivial (fun _ _ _ _ _ => ⟨rfl, trivial⟩)
  simp only [id_eq, List.nil_append] at hloop
  rw [← hloop]
  refine (range_pointwise m _ [] (List.filterMap q) key
    (fun v cur => cur ++ (emit key v).filterMap q) ?_ ?_).trans ?_
  · intro log v _
    exact List.filterMap_append
  · intro log k v hv hne
    rw [List.filterMap_append, hother k v hv hne, List.append_nil]
  · cases m.lookup key <;> simp

/-- The table with every value changed. -/
def mapVal (f : κ → α → β) (m : Table κ α) : Table κ β where
  entries := m.entries.map fun entry => ⟨entry.1, f entry.1 entry.2⟩
  nodupKeys := by
    have hkeys : (m.entries.map fun entry => (⟨entry.1, f entry.1 entry.2⟩ : Σ _ : κ, β)).keys =
        m.entries.keys := by
      simp [List.keys, Function.comp_def]
    unfold List.NodupKeys
    rw [hkeys]
    exact m.nodupKeys

theorem lookup_mapVal (f : κ → α → β) (m : Table κ α) (k : κ) :
    (m.mapVal f).lookup k = (m.lookup k).map (f k) := by
  unfold mapVal AList.lookup
  dsimp only
  induction m.entries with
  | nil => rfl
  | cons entry rest ih =>
    obtain ⟨k', v⟩ := entry
    rw [List.map_cons]
    by_cases heq : k = k'
    · subst heq
      simp
    · rw [List.dlookup_cons_ne _ _ heq, List.dlookup_cons_ne _ _ heq, ih]

/-- Tables with the same entries have them up to order. -/
theorem perm_of_lookup {m m' : Table κ α} (h : ∀ k, m.lookup k = m'.lookup k) :
    m.entries.Perm m'.entries := by
  apply List.lookup_ext m.nodupKeys m'.nodupKeys
  intro k v
  exact Eq.congr_left (h k)

/-- An order in which a map may be walked: the same entries, rearranged. -/
structure Walk (κ α : Type) where
  walk : Table κ α → Table κ α
  perm : ∀ m, (walk m).entries.Perm m.entries

/-- The order in which the entries are stored. -/
def Walk.stored : Walk κ α := ⟨id, fun _ => List.Perm.refl _⟩

def Walk.reversed : Walk κ α where
  walk m := ⟨m.entries.reverse,
    (List.perm_nodupKeys (List.reverse_perm m.entries)).mpr m.nodupKeys⟩
  perm m := List.reverse_perm m.entries

@[simp] theorem Walk.lookup_walk (w : Walk κ α) (m : Table κ α) (k : κ) :
    (w.walk m).lookup k = m.lookup k :=
  AList.perm_lookup (w.perm m)

theorem lookup_insert_eq (m : Table κ α) (k k' : κ) (v : α) :
    (m.insert k v).lookup k' = if k' = k then some v else m.lookup k' := by
  split
  · next h => subst h; exact AList.lookup_insert m
  · next h => exact AList.lookup_insert_ne h

theorem lookup_erase_eq (m : Table κ α) (k k' : κ) :
    (m.erase k).lookup k' = if k' = k then none else m.lookup k' := by
  split
  · next h => subst h; exact AList.lookup_erase _ m
  · next h => exact AList.lookup_erase_ne h

end Table

end Lib
