import Mathlib.Tactic

/-!
A cache whose entries expire a fixed time after they were set, by its documented
behaviour. Entries are not touched when they are read, and a lifetime of zero or less
means that an entry never expires. Results hold for every such cache; `ExpiryMap` is
one to compute with.
-/

namespace Lib

class TTLCache (C : Type) (κ α : outParam Type) where
  empty : C
  /-- The entry that is found at a given time. -/
  get : C → (now : Int) → κ → Option α
  set : C → (ttl now : Int) → κ → α → C
  deleteExpired : C → (now : Int) → C

class LawfulTTLCache (C : Type) {κ α : outParam Type} [DecidableEq κ] [TTLCache C κ α] :
    Prop where
  get_empty (now : Int) (k : κ) : TTLCache.get (TTLCache.empty : C) now k = none
  get_set (cache : C) (ttl : Int) {now later : Int} (k k' : κ) (v : α) (h : now ≤ later) :
    TTLCache.get (TTLCache.set cache ttl now k v) later k' =
      if k' = k then if 0 < ttl ∧ now + ttl < later then none else some v
      else TTLCache.get cache later k'
  get_deleteExpired (cache : C) {now later : Int} (k : κ) (h : now ≤ later) :
    TTLCache.get (TTLCache.deleteExpired cache now) later k = TTLCache.get cache later k
  /-- What has not expired yet had not expired before. -/
  get_earlier {cache : C} {now later : Int} {k : κ} {v : α} (h : now ≤ later)
    (hget : TTLCache.get cache later k = some v) : TTLCache.get cache now k = some v

/-- Values with the time after which they are not found. -/
def ExpiryMap (κ α : Type) : Type := κ → Option (α × Option Int)

namespace ExpiryMap

variable {κ α : Type} [DecidableEq κ]

/-- The value of an entry that has not expired. -/
def live (now : Int) : Option (α × Option Int) → Option α
  | some (v, some t) => if now ≤ t then some v else none
  | some (v, none) => some v
  | none => none

theorem live_earlier {now later : Int} (h : now ≤ later) {e : Option (α × Option Int)} {v : α}
    (hlive : live later e = some v) : live now e = some v := by
  match e with
  | some (w, some t) =>
    by_cases hlater : later ≤ t
    · simpa [live, hlater, h.trans hlater] using hlive
    · simp [live, hlater] at hlive
  | some (w, none) => exact hlive
  | none => cases hlive

instance : TTLCache (ExpiryMap κ α) κ α where
  empty := fun _ => none
  get cache now k := live now (cache k)
  set cache ttl now k v := fun k' =>
    if k' = k then some (v, if 0 < ttl then some (now + ttl) else none) else cache k'
  deleteExpired cache now := fun k => if (live now (cache k)).isSome then cache k else none

instance : LawfulTTLCache (ExpiryMap κ α) where
  get_empty _ _ := rfl
  get_set cache ttl now later k k' v h := by
    simp only [TTLCache.get, TTLCache.set]
    by_cases hk : k' = k
    · rw [if_pos hk, if_pos hk]
      by_cases httl : 0 < ttl
      · by_cases hlater : now + ttl < later
        · simp [live, httl, hlater]
        · simp [live, httl, hlater, not_lt.mp hlater]
      · simp only [httl, false_and, if_false, live]
    · rw [if_neg hk, if_neg hk]
  get_deleteExpired cache now later k h := by
    simp only [TTLCache.get, TTLCache.deleteExpired]
    split
    · rfl
    · next hexpired =>
      cases hlater : live later (cache k) with
      | none => rfl
      | some v => simp [live_earlier h hlater] at hexpired
  get_earlier h hget := live_earlier h hget

end ExpiryMap

end Lib
