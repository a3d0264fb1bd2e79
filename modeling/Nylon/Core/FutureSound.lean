import Nylon.Core.FutureInvariant

/-!
Every interleaving of the calls on a future is `Sound`. An `Await` that runs alone is
never refused, and gets the result within three steps once there is one; the first
completion returns within three steps of its own.
-/

namespace Nylon.Core.Future

open Lib.Transitions

variable {ι κ T E : Type}

section Alone

/-- The call `j` is the only one that counts: the others neither are in progress nor have
the result, and it cannot be cancelled. -/
structure Solo (s : System ι κ T E) (j : ι) : Prop where
  others : ∀ i, i ≠ j → ¬ (s.awaits i).Holds
  pc : s.awaits j = .begin ∨ s.awaits j = .poll ∨ s.awaits j = .select ∨
    s.awaits j = .finish ∨ (s.awaits j).HasResult
  ready : s.ctx j = none ∨ s.state.closed = true ∧ s.awaits j ≠ .select

/-- How many steps a call needs once the future is complete. -/
def AwaitPC.remaining : AwaitPC T E → Nat
  | .begin => 3
  | .poll | .select => 2
  | .finish => 1
  | .cancel _ | .returned _ => 0

variable [DecidableEq ι] {args : κ → T × Option E} {first : Option κ} {s : System ι κ T E} {j : ι}

theorem Solo.goto (h : Solo s j) (pc : AwaitPC T E) (state : FutureState T E)
    (hpc : pc = .poll ∨ pc = .finish ∨ pc.HasResult ∨ pc = .select ∧ s.state.closed = false)
    (hclosed : state.closed = s.state.closed) :
    Solo {s.goto j pc with state := state} j := by
  have hself : ({s.goto j pc with state := state} : System ι κ T E).awaits j = pc :=
    goto_self s j pc
  refine ⟨?_, ?_, ?_⟩
  · intro i hi hholds
    rcases goto_elim AwaitPC.Holds hholds with ⟨heq, _⟩ | ⟨_, hold⟩
    · exact hi heq
    · exact h.others i hi hold
  · rw [hself]
    tauto
  · rcases h.ready with hctx | ⟨hdone, _⟩
    · exact .inl hctx
    · refine .inr ⟨hclosed.trans hdone, ?_⟩
      rw [hself]
      rintro rfl
      rcases hpc with hpc | hpc | hpc | ⟨_, hopen⟩
      · cases hpc
      · cases hpc
      · exact hpc
      · exact nomatch hdone.symm.trans hopen

/-- A step of the call itself; it is not refused. -/
theorem solo_stepAwait (hcustody : Custody s) (h : Solo s j) (takesCtx : Bool) :
    Solo (stepAwait s j takesCtx) j ∧
      (stepAwait s j takesCtx).state.closed = s.state.closed ∧
      (s.state.closed = true → ((stepAwait s j takesCtx).awaits j).remaining =
        (s.awaits j).remaining - 1) := by
  rcases h.pc with hpc | hpc | hpc | hpc | hpc
  · have hfree : ¬ (s.state.awaited || s.state.awaiting) = true := by
      rw [hcustody.flags_iff]
      rintro ⟨i, hi⟩
      by_cases hij : i = j
      · rw [hij, hpc] at hi
        exact hi.elim id id
      · exact h.others i hij hi
    have hstep : stepAwait s j takesCtx =
        {s.goto j .poll with state := {s.state with awaiting := true}} := by
      simp [stepAwait, hpc, FutureState.beginAwait, hfree]
    rw [hstep]
    refine ⟨h.goto .poll _ (.inl rfl) rfl, rfl, fun _ => ?_⟩
    rw [hpc]
    exact congrArg _ (goto_self s j .poll)
  · cases hclosed : s.state.closed with
    | true =>
      have hstep : stepAwait s j takesCtx = s.goto j .finish := by
        simp [stepAwait, hpc, hclosed]
      rw [hstep]
      refine ⟨h.goto .finish s.state (.inr (.inl rfl)) rfl, hclosed, fun _ => ?_⟩
      rw [hpc, goto_self]
      rfl
    | false =>
      have hstep : stepAwait s j takesCtx = s.goto j .select := by
        simp [stepAwait, hpc, hclosed]
      rw [hstep]
      exact ⟨h.goto .select s.state (.inr (.inr (.inr ⟨rfl, hclosed⟩))) rfl, hclosed, nofun⟩
  · have hctx : s.ctx j = none := h.ready.resolve_right fun hready => hready.2 hpc
    cases hclosed : s.state.closed with
    | true =>
      have hstep : stepAwait s j takesCtx = s.goto j .finish := by
        simp [stepAwait, hpc, hclosed, hctx]
      rw [hstep]
      refine ⟨h.goto .finish s.state (.inr (.inl rfl)) rfl, hclosed, fun _ => ?_⟩
      rw [hpc, goto_self]
      rfl
    | false =>
      have hstep : stepAwait s j takesCtx = s := by
        simp [stepAwait, hpc, hclosed, hctx]
      rw [hstep]
      exact ⟨h, hclosed, nofun⟩
  · have hstep : stepAwait s j takesCtx =
        {s.goto j (.returned (.result s.state.value s.state.err)) with
          state := {s.state with awaiting := false, awaited := true}} := by
      simp [stepAwait, hpc, FutureState.finishAwait]
    rw [hstep]
    refine ⟨h.goto _ _ (.inr (.inr (.inl trivial))) rfl, rfl, fun _ => ?_⟩
    rw [hpc]
    exact congrArg _ (goto_self s j _)
  · have hstep : stepAwait s j takesCtx = s := by
      unfold stepAwait
      split <;> next heq => first | rfl | (rw [heq] at hpc; exact absurd hpc id)
    rw [hstep]
    refine ⟨h, rfl, fun _ => ?_⟩
    revert hpc
    cases s.awaits j with
    | returned _ => exact fun _ => rfl
    | _ => exact fun hpc => absurd hpc id

variable [DecidableEq κ]

theorem solo_step (hcustody : Custody s) (h : Solo s j) {e : Event ι κ E} (he : e.Alone j) :
    Solo (step args s e) j := by
  cases e with
  | await i takesCtx =>
    obtain rfl : i = j := he
    exact (solo_stepAwait hcustody h takesCtx).1
  | complete k =>
    obtain ⟨hawaits, _, _, hctx, hmono⟩ := stepComplete_frame args s k
    refine ⟨?_, ?_, ?_⟩
    · show ∀ i, i ≠ j → ¬ ((stepComplete args s k).awaits i).Holds
      rw [hawaits]
      exact h.others
    · show _ ∨ _
      simp only [step, hawaits]
      exact h.pc
    · show _ ∨ _
      simp only [step, hawaits, hctx]
      exact h.ready.imp_right (And.imp_left hmono)
  | cancel i err => exact absurd he id

theorem solo_run (hcoherent : Coherent args first s) (h : Solo s j)
    {more : List (Event ι κ E)} (hmore : ∀ e ∈ more, e.Alone j) :
    Solo (run (step args) s more) j := by
  induction more generalizing s first with
  | nil => exact h
  | cons e more ih =>
    obtain ⟨he, hrest⟩ := List.forall_mem_cons.mp hmore
    exact ih (coherent_step hcoherent e) (solo_step hcoherent.custody h he) hrest

/-- Once the future is complete the call has the result after the steps that remain. -/
theorem solo_finishes (hcoherent : Coherent args first s) (h : Solo s j)
    (hclosed : s.state.closed = true) (takesCtx : Bool) {n : Nat}
    (hn : (s.awaits j).remaining = n) :
    ((run (step args) s (List.replicate n (.await j takesCtx))).awaits j).HasResult := by
  induction n generalizing s with
  | zero =>
    rcases h.pc with hpc | hpc | hpc | hpc | hpc
    all_goals first | exact hpc | (rw [hpc] at hn; cases hn)
  | succ n ih =>
    obtain ⟨hsolo, hsame, hless⟩ := solo_stepAwait hcoherent.custody h takesCtx
    refine ih (coherent_step hcoherent (.await j takesCtx)) hsolo (hsame.trans hclosed) ?_
    show ((stepAwait s j takesCtx).awaits j).remaining = n
    rw [hless hclosed, hn, Nat.add_sub_cancel]

end Alone

section Completions

/-- How many steps the first completion needs. -/
def CompletePC.remaining : CompletePC → Nat
  | .store => 3
  | .close => 2
  | .leave => 1
  | .enter | .returned => 0

theorem CompletePC.remaining_le (pc : CompletePC) : pc.remaining ≤ 3 := by
  cases pc <;> decide

variable [DecidableEq κ] {args : κ → T × Option E} {first : Option κ} {s : System ι κ T E} {k : κ}

/-- Nobody has to be waited for inside `once.Do`. -/
theorem remaining_stepComplete {n : Nat} (hn : (s.completes k).remaining = n + 1) :
    ((stepComplete args s k).completes k).remaining = n := by
  cases hpc : s.completes k with
  | store | close | leave =>
    rw [hpc] at hn
    cases hn
    simp [stepComplete, hpc, System.proceed, CompletePC.remaining]
  | enter | returned =>
    rw [hpc] at hn
    cases hn

theorem returned_stepComplete (h : Completion args s (some k))
    (hreturned : s.completes k = .returned) (l : κ) :
    (stepComplete args s l).completes l = .returned := by
  obtain ⟨honce, _⟩ := h.of_returned hreturned
  by_cases hl : l = k
  · simp [stepComplete, hl, hreturned]
  · rcases h.2 l hl with henter | ⟨_, hl⟩
    · simp [stepComplete, henter, honce, System.proceed]
    · simp [stepComplete, hl]

variable [DecidableEq ι]

theorem first_returns (h : Coherent args (some k) s) {n : Nat}
    (hn : (s.completes k).remaining = n) :
    (run (step args) s (List.replicate n (.complete k))).completes k = .returned := by
  induction n generalizing s with
  | zero =>
    obtain ⟨hat, _⟩ := h.completion
    cases hpc : s.completes k with
    | returned => exact hpc
    | enter => simp [FirstAt, hpc] at hat
    | _ => rw [hpc] at hn; cases hn
  | succ n ih => exact ih (coherent_step h (.complete k)) (remaining_stepComplete hn)

end Completions

section Sound

variable [DecidableEq ι] [DecidableEq κ] {args : κ → T × Option E} {s : System ι κ T E}
  {events : List (Event ι κ E)}

theorem Coherent.completes {k : κ} (h : Coherent args (some k) s) : ∃ n ≤ 3, ∀ l,
    (run (step args) s (List.replicate n (.complete k) ++ [.complete l])).completes l =
      .returned := by
  refine ⟨_, (s.completes k).remaining_le, fun l => ?_⟩
  rw [run, List.foldl_append]
  exact returned_stepComplete (coherent_run h _).completion (first_returns h rfl) l

theorem Coherent.awaitable (h : Coherent args (firstComplete events) s)
    (hprogress : ∀ i, ¬ (s.awaits i).InProgress) (hresult : ∀ i, ¬ (s.awaits i).HasResult)
    {j : ι} (hj : s.awaits j = .begin) (hready : s.ctx j = none ∨ s.state.closed = true)
    {more : List (Event ι κ E)} (hmore : ∀ e ∈ more, e.Alone j)
    (hclosed : (run (step args) s more).state.closed = true ∨
      ∃ k, (run (step args) s more).completes k = .returned) :
    ∃ n ≤ 3, ∃ k, firstComplete (events ++ more) = some k ∧
      ∀ takesCtx, (run (step args) (run (step args) s more)
        (List.replicate n (.await j takesCtx))).awaits j =
          .returned (.result (args k).1 (args k).2) := by
  have hstart : Solo s j := by
    refine ⟨fun i _ => not_or.mpr ⟨hprogress i, hresult i⟩, .inl hj, hready.imp_right ?_⟩
    intro hdone
    refine ⟨hdone, ?_⟩
    rw [hj]
    exact nofun
  have hcoherent := coherent_run h more
  have hsolo := solo_run h hstart hmore
  have hclosed : (run (step args) s more).state.closed = true :=
    hclosed.elim id fun ⟨_, hreturned⟩ => (hcoherent.completion.of_returned hreturned).2
  obtain ⟨k, hk, _⟩ := hcoherent.completion.closed hclosed
  refine ⟨((run (step args) s more).awaits j).remaining, ?_, k, ?_, fun takesCtx => ?_⟩
  · cases (run (step args) s more).awaits j <;> simp [AwaitPC.remaining]
  · rw [firstComplete_append]
    exact hk
  · have hhas := solo_finishes hcoherent hsolo hclosed takesCtx rfl
    obtain ⟨value, err, hpc⟩ := hhas.exists_eq
    have hfinal := coherent_run hcoherent
      (List.replicate ((run (step args) s more).awaits j).remaining (.await j takesCtx))
    obtain ⟨l, hl, hargs⟩ := hfinal.results j value err hpc
    rw [hk] at hl
    obtain rfl : k = l := Option.some.inj hl
    rw [hpc, hargs]

/-- Every interleaving of any number of calls is sound. -/
theorem future_consumed_once [Inhabited T] (args : κ → T × Option E) (events : List (Event ι κ E)) :
    Sound args events (run (step args) (start : System ι κ T E) events) := by
  have h : Coherent args (firstComplete events) (run (step args) (start : System ι κ T E) events) :=
    coherent_run coherent_start events
  generalize run (step args) (start : System ι κ T E) events = s at h ⊢
  refine ⟨h.results, ?_, fun k hk => (hk ▸ h).completes, ?_, ?_, ?_, ?_⟩
  · intro k hreturned
    obtain ⟨_, hclosed⟩ := h.completion.of_returned hreturned
    exact ⟨hclosed, h.completion.closed hclosed⟩
  · intro i j hi hj
    cases h.custody with
    | free _ _ hothers => exact absurd (.inr hi) (hothers i)
    | busy o _ _ ho hothers =>
      obtain rfl : i = o := by_contra fun hne => hothers i hne (.inr hi)
      exact absurd hi (AwaitPC.not_both ho)
    | taken o _ _ _ hothers =>
      obtain rfl : i = o := by_contra fun hne => hothers i hne (.inr hi)
      exact by_contra fun hne => hothers j (Ne.symm hne) (.inr hj)
  · intro i err takesCtx hpc
    obtain ⟨_, hawaited, hothers⟩ := h.custody.of_inProgress (i := i) (by rw [hpc]; trivial)
    have hstep : step args s (.await i takesCtx) =
        {s.goto i (.returned (.cancelled err)) with state := s.state.cancelAwait} := by
      simp [step, stepAwait, hpc]
    rw [hstep]
    refine ⟨goto_self s i _, ?_, fun j => ?_⟩
    · show FutureState.mk s.state.closed s.state.value s.state.err false s.state.awaited = _
      rw [hawaited]
    · have hfree : ¬ ((s.goto i (.returned (.cancelled err))).awaits j).Holds := fun hj => by
        rcases goto_elim AwaitPC.Holds hj with ⟨_, hnew⟩ | ⟨hne, hold⟩
        · exact hnew.elim id id
        · exact hothers j hne hold
      exact not_or.mp hfree
  · intro hprogress hresult j hj hready more hmore hclosed
    exact h.awaitable hprogress hresult hj hready hmore hclosed
  · intro i takesCtx hpc
    have hflags := h.custody.flags_iff
    by_cases hset : (s.state.awaited || s.state.awaiting) = true
    · have hstep : step args s (.await i takesCtx) = s.goto i (.returned .alreadyAwaited) := by
        simp [step, stepAwait, hpc, FutureState.beginAwait, hset]
      rw [hstep]
      exact ⟨iff_of_true (goto_self s i _) (hflags.mp hset), fun _ => rfl⟩
    · have hstep : step args s (.await i takesCtx) =
          {s.goto i .poll with state := {s.state with awaiting := true}} := by
        simp [step, stepAwait, hpc, FutureState.beginAwait, hset]
      have hpoll : (step args s (.await i takesCtx)).awaits i = .poll := by
        rw [hstep]
        exact goto_self s i .poll
      rw [hpoll]
      exact ⟨iff_of_false nofun fun hsome => hset (hflags.mpr hsome), nofun⟩

end Sound

end Nylon.Core.Future
