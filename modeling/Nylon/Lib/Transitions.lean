import Mathlib.Data.List.Basic

/-!
Runs of a deterministic transition system: a step function that takes a state
and an event, sequences of events, and the rule that an invariant of the single
steps holds after every sequence of them.
-/

namespace Lib.Transitions

variable {σ ε : Type} (step : σ → ε → σ)

/-- The state after a sequence of events. -/
def run (s : σ) (events : List ε) : σ :=
  events.foldl step s

/-- Every event meets a condition in the state in which it happens. -/
def Along (cond : σ → ε → Prop) : σ → List ε → Prop
  | _, [] => True
  | s, e :: rest => cond s e ∧ Along cond (step s e) rest

instance decidableAlong (cond : σ → ε → Prop) [∀ s e, Decidable (cond s e)] :
    (s : σ) → (events : List ε) → Decidable (Along step cond s events)
  | _, [] => inferInstanceAs (Decidable True)
  | s, e :: rest =>
    have := decidableAlong cond (step s e) rest
    inferInstanceAs (Decidable (_ ∧ _))

variable {step} {cond : σ → ε → Prop} {s : σ} {events : List ε}

theorem along_append {front back : List ε} : Along step cond s (front ++ back) ↔
      Along step cond s front ∧ Along step cond (run step s front) back := by
  induction front generalizing s with
  | nil => simp [Along, run]
  | cons e rest ih =>
    simp only [List.cons_append, Along, ih, and_assoc]
    rfl

theorem along_true : Along step (fun _ _ => True) s events := by
  induction events generalizing s with
  | nil => trivial
  | cons e rest ih => exact ⟨trivial, ih⟩

theorem Along.and {cond' : σ → ε → Prop}
    (h : Along step cond s events) (h' : Along step cond' s events) :
    Along step (fun s e => cond s e ∧ cond' s e) s events := by
  induction events generalizing s with
  | nil => trivial
  | cons e rest ih => exact ⟨⟨h.1, h'.1⟩, ih h.2 h'.2⟩

/-- What every event keeps that meets the condition, a run of such events
keeps. -/
theorem run_invariant {inv : σ → Prop} (hstep : ∀ s e, inv s → cond s e → inv (step s e))
    (hinit : inv s) (hmeets : Along step cond s events) :
    inv (run step s events) := by
  induction events generalizing s with
  | nil => exact hinit
  | cons e rest ih => exact ih (hstep s e hinit hmeets.1) hmeets.2

end Lib.Transitions
