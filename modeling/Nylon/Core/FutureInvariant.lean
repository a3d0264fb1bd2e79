import Nylon.Core.Future

/-!
The invariant of a future. At most one `Await` keeps it, in progress or with the result,
and the flags say which; only the first call of `complete` gets into `once.Do`, and what it
stores stays.
-/

namespace Nylon.Core.Future

open Lib.Transitions

variable {ι κ T E : Type}

section Awaits

/-- The call keeps the future from others. -/
def AwaitPC.Holds (pc : AwaitPC T E) : Prop := pc.InProgress ∨ pc.HasResult

theorem AwaitPC.not_both {pc : AwaitPC T E} (h : pc.InProgress) : ¬ pc.HasResult := by
  cases pc with
  | returned outcome => exact absurd h id
  | _ => exact id

theorem AwaitPC.HasResult.exists_eq {pc : AwaitPC T E} (h : pc.HasResult) :
    ∃ value err, pc = .returned (.result value err) := by
  match pc, h with
  | .returned (.result value err), _ => exact ⟨value, err, rfl⟩

/-- Nobody keeps the future, or one call does, which is in progress or has the result. The
flags say which. -/
inductive Custody (s : System ι κ T E) : Prop where
  | free (hawaiting : s.state.awaiting = false) (hawaited : s.state.awaited = false)
      (hothers : ∀ j, ¬ (s.awaits j).Holds)
  | busy (i : ι) (hawaiting : s.state.awaiting = true) (hawaited : s.state.awaited = false)
      (hi : (s.awaits i).InProgress) (hothers : ∀ j, j ≠ i → ¬ (s.awaits j).Holds)
  | taken (i : ι) (hawaiting : s.state.awaiting = false) (hawaited : s.state.awaited = true)
      (hi : (s.awaits i).HasResult) (hothers : ∀ j, j ≠ i → ¬ (s.awaits j).Holds)

/-- The call that is in progress is the one that keeps the future. -/
theorem Custody.of_inProgress {s : System ι κ T E} (h : Custody s) {i : ι}
    (hi : (s.awaits i).InProgress) : s.state.awaiting = true ∧ s.state.awaited = false ∧
      ∀ j, j ≠ i → ¬ (s.awaits j).Holds := by
  cases h with
  | free _ _ hothers => exact absurd (.inl hi) (hothers i)
  | busy o hawaiting hawaited _ hothers =>
    obtain rfl : i = o := by_contra fun hne => hothers i hne (.inl hi)
    exact ⟨hawaiting, hawaited, hothers⟩
  | taken o _ _ ho hothers =>
    obtain rfl : i = o := by_contra fun hne => hothers i hne (.inl hi)
    exact absurd ho (AwaitPC.not_both hi)

/-- The flags are set exactly if some call keeps the future. -/
theorem Custody.flags_iff {s : System ι κ T E} (h : Custody s) :
    (s.state.awaited || s.state.awaiting) = true ↔ ∃ j, (s.awaits j).Holds := by
  cases h with
  | free hawaiting hawaited hothers => simp [hawaiting, hawaited, hothers]
  | busy i hawaiting _ hi _ => simpa [hawaiting] using ⟨i, .inl hi⟩
  | taken i _ hawaited hi _ => simpa [hawaited] using ⟨i, .inr hi⟩

variable [DecidableEq ι]

theorem goto_self (s : System ι κ T E) (i : ι) (pc : AwaitPC T E) :
    (s.goto i pc).awaits i = pc := by
  simp [System.goto]

theorem goto_of_ne (s : System ι κ T E) {i j : ι} (h : j ≠ i) (pc : AwaitPC T E) :
    (s.goto i pc).awaits j = s.awaits j := by
  simp [System.goto, h]

theorem goto_elim (P : AwaitPC T E → Prop) {s : System ι κ T E} {i j : ι} {pc : AwaitPC T E}
    (h : P ((s.goto i pc).awaits j)) : j = i ∧ P pc ∨ j ≠ i ∧ P (s.awaits j) := by
  by_cases hj : j = i
  · subst hj
    exact .inl ⟨rfl, goto_self s j pc ▸ h⟩
  · exact .inr ⟨hj, goto_of_ne s hj pc ▸ h⟩

/-- What one step of an `Await` can do. -/
inductive AwaitStep (s : System ι κ T E) (i : ι) (s' : System ι κ T E) : Prop where
  | blocked (h : s' = s)
  | refused (hpc : s.awaits i = .begin)
      (hflags : (s.state.awaited || s.state.awaiting) = true)
      (h : s' = s.goto i (.returned .alreadyAwaited))
  | begun (hpc : s.awaits i = .begin) (hawaiting : s.state.awaiting = false)
      (hawaited : s.state.awaited = false)
      (h : s' = {s.goto i .poll with state := {s.state with awaiting := true}})
  | moved (pc : AwaitPC T E) (hpc : (s.awaits i).InProgress) (hnew : pc.InProgress)
      (hfinish : pc = .finish → s.state.closed = true) (h : s' = s.goto i pc)
  | finished (hpc : s.awaits i = .finish)
      (h : s' = {s.goto i (.returned (.result s.state.value s.state.err)) with
        state := {s.state with awaiting := false, awaited := true}})
  | cancelled (err : E) (hpc : s.awaits i = .cancel err)
      (h : s' = {s.goto i (.returned (.cancelled err)) with
        state := {s.state with awaiting := false}})

theorem awaitStep (s : System ι κ T E) (i : ι) (takesCtx : Bool) :
    AwaitStep s i (stepAwait s i takesCtx) := by
  unfold stepAwait
  split
  · next hpc =>
    unfold FutureState.beginAwait
    by_cases hflags : (s.state.awaited || s.state.awaiting) = true
    · rw [if_pos hflags]
      exact .refused hpc hflags rfl
    · rw [if_neg hflags]
      rw [Bool.not_eq_true, Bool.or_eq_false_iff] at hflags
      exact .begun hpc hflags.2 hflags.1 rfl
  · next hpc =>
    have hin : (s.awaits i).InProgress := by rw [hpc]; trivial
    by_cases hclosed : s.state.closed = true
    · rw [if_pos hclosed]
      exact .moved .finish hin trivial (fun _ => hclosed) rfl
    · rw [if_neg hclosed]
      exact .moved .select hin trivial (fun h => by cases h) rfl
  · next hpc =>
    have hin : (s.awaits i).InProgress := by rw [hpc]; trivial
    split
    · next hclosed _ => exact .moved .finish hin trivial (fun _ => hclosed) rfl
    · next err hclosed _ =>
      cases takesCtx with
      | true => exact .moved (.cancel err) hin trivial (fun h => by cases h) rfl
      | false => exact .moved .finish hin trivial (fun _ => hclosed) rfl
    · next err _ _ => exact .moved (.cancel err) hin trivial (fun h => by cases h) rfl
    · exact .blocked rfl
  · next hpc => exact .finished hpc rfl
  · next err hpc => exact .cancelled err hpc rfl
  · exact .blocked rfl

theorem custody_goto {s s' : System ι κ T E} (h : Custody s) {i : ι} {pc : AwaitPC T E}
    (hawaits : s'.awaits = (s.goto i pc).awaits)
    (hflags : s'.state.awaiting = s.state.awaiting ∧ s'.state.awaited = s.state.awaited)
    (hpc : (pc.InProgress ↔ (s.awaits i).InProgress) ∧
      (pc.HasResult ↔ (s.awaits i).HasResult)) : Custody s' := by
  have hin : ∀ j, (s'.awaits j).InProgress ↔ (s.awaits j).InProgress := by
    intro j
    rw [hawaits]
    by_cases hj : j = i
    · rw [hj, goto_self]
      exact hpc.1
    · rw [goto_of_ne s hj]
  have hres : ∀ j, (s'.awaits j).HasResult ↔ (s.awaits j).HasResult := by
    intro j
    rw [hawaits]
    by_cases hj : j = i
    · rw [hj, goto_self]
      exact hpc.2
    · rw [goto_of_ne s hj]
  have hholds : ∀ j, (s'.awaits j).Holds ↔ (s.awaits j).Holds := fun j =>
    or_congr (hin j) (hres j)
  cases h with
  | free hawaiting hawaited hothers =>
    exact .free (hflags.1.trans hawaiting) (hflags.2.trans hawaited)
      fun j hj => hothers j ((hholds j).mp hj)
  | busy o hawaiting hawaited ho hothers =>
    exact .busy o (hflags.1.trans hawaiting) (hflags.2.trans hawaited) ((hin o).mpr ho)
      fun j hj hh => hothers j hj ((hholds j).mp hh)
  | taken o hawaiting hawaited ho hothers =>
    exact .taken o (hflags.1.trans hawaiting) (hflags.2.trans hawaited) ((hres o).mpr ho)
      fun j hj hh => hothers j hj ((hholds j).mp hh)

theorem custody_stepAwait {s : System ι κ T E} (h : Custody s) (i : ι) (takesCtx : Bool) :
    Custody (stepAwait s i takesCtx) := by
  cases awaitStep s i takesCtx with
  | blocked hs =>
    rw [hs]
    exact h
  | refused hpc _ hs =>
    rw [hs]
    refine custody_goto h rfl ⟨rfl, rfl⟩ ?_
    rw [hpc]
    exact ⟨Iff.rfl, Iff.rfl⟩
  | moved pc hpc hnew _ hs =>
    rw [hs]
    exact custody_goto h rfl ⟨rfl, rfl⟩ ⟨iff_of_true hnew hpc,
      iff_of_false (AwaitPC.not_both hnew) (AwaitPC.not_both hpc)⟩
  | begun hpc hawaiting hawaited hs =>
    have hfree : ∀ j, ¬ (s.awaits j).Holds := by
      intro j hj
      have hset := h.flags_iff.mpr ⟨j, hj⟩
      simp [hawaiting, hawaited] at hset
    rw [hs]
    refine .busy i rfl hawaited ?_ ?_
    · show ((s.goto i .poll).awaits i).InProgress
      rw [goto_self]
      trivial
    · intro j hj
      show ¬ ((s.goto i .poll).awaits j).Holds
      rw [goto_of_ne s hj]
      exact hfree j
  | finished hpc hs =>
    obtain ⟨_, _, hothers⟩ := h.of_inProgress (i := i) (by rw [hpc]; trivial)
    rw [hs]
    refine .taken i rfl rfl ?_ ?_
    · show ((s.goto i _).awaits i).HasResult
      rw [goto_self]
      trivial
    · intro j hj
      show ¬ ((s.goto i _).awaits j).Holds
      rw [goto_of_ne s hj]
      exact hothers j hj
  | cancelled err hpc hs =>
    obtain ⟨_, hawaited, hothers⟩ := h.of_inProgress (i := i) (by rw [hpc]; trivial)
    rw [hs]
    refine .free rfl hawaited fun j => ?_
    show ¬ ((s.goto i _).awaits j).Holds
    by_cases hj : j = i
    · rw [hj, goto_self]
      exact not_or.mpr ⟨id, id⟩
    · rw [goto_of_ne s hj]
      exact hothers j hj

end Awaits

section Completes

/-- How far the first call of `complete` has come, and what holds there. -/
def FirstAt (args : κ → T × Option E) (s : System ι κ T E) (k : κ) : CompletePC → Prop
  | .enter => False
  | .store => s.once = .running ∧ s.state.closed = false
  | .close => s.once = .running ∧ s.state.closed = false ∧ args k = (s.state.value, s.state.err)
  | .leave => s.once = .running ∧ s.state.closed = true ∧ args k = (s.state.value, s.state.err)
  | .returned =>
    s.once = .finished ∧ s.state.closed = true ∧ args k = (s.state.value, s.state.err)

/-- Only the first call gets into `once.Do`, and what it stores stays. The others return
after it. -/
def Completion (args : κ → T × Option E) (s : System ι κ T E) : Option κ → Prop
  | none => s.once = .idle ∧ s.state.closed = false ∧ ∀ l, s.completes l = .enter
  | some k => FirstAt args s k (s.completes k) ∧
    ∀ l ≠ k, s.completes l = .enter ∨ s.once = .finished ∧ s.completes l = .returned

variable {args : κ → T × Option E} {first : Option κ} {s s' : System ι κ T E}

theorem Completion.congr (h : Completion args s first) (honce : s'.once = s.once)
    (hcompletes : s'.completes = s.completes) (hclosed : s'.state.closed = s.state.closed)
    (hvalue : s'.state.value = s.state.value) (herr : s'.state.err = s.state.err) :
    Completion args s' first := by
  have hfirst : FirstAt args s' = FirstAt args s := by
    funext k pc
    cases pc <;> simp [FirstAt, honce, hclosed, hvalue, herr]
  cases first with
  | none => rwa [Completion, honce, hclosed, hcompletes]
  | some k => rwa [Completion, honce, hcompletes, hfirst]

/-- A result that is there is that of the first call. -/
theorem Completion.closed (h : Completion args s first) (hclosed : s.state.closed = true) :
    ∃ k, first = some k ∧ args k = (s.state.value, s.state.err) := by
  cases first with
  | none => exact nomatch h.2.1.symm.trans hclosed
  | some k =>
    obtain ⟨hat, _⟩ := h
    refine ⟨k, rfl, ?_⟩
    cases hpc : s.completes k with
    | enter => simp [FirstAt, hpc] at hat
    | store | close => simp [FirstAt, hpc, hclosed] at hat
    | leave | returned => exact (hpc ▸ hat).2.2

/-- Whoever has returned has closed the channel, or has waited for the call that did. -/
theorem Completion.of_returned (h : Completion args s first) {l : κ}
    (hl : s.completes l = .returned) : s.once = .finished ∧ s.state.closed = true := by
  cases first with
  | none => exact nomatch (h.2.2 l).symm.trans hl
  | some k =>
    obtain ⟨hat, hothers⟩ := h
    have honce : s.once = .finished := by
      by_cases hlk : l = k
      · rw [← hlk, hl] at hat
        exact hat.1
      · exact ((hothers l hlk).resolve_left fun henter => nomatch henter.symm.trans hl).1
    cases hpc : s.completes k with
    | enter => simp [FirstAt, hpc] at hat
    | store | close | leave => simp [FirstAt, hpc, honce] at hat
    | returned => exact ⟨honce, (hpc ▸ hat).2.1⟩

variable [DecidableEq κ]

theorem proceed_self (s : System ι κ T E) (k : κ) (pc : CompletePC) :
    (s.proceed k pc).completes k = pc := by
  simp [System.proceed]

theorem proceed_of_ne (s : System ι κ T E) {k l : κ} (h : l ≠ k) (pc : CompletePC) :
    (s.proceed k pc).completes l = s.completes l := by
  simp [System.proceed, h]

theorem completion_stepComplete (h : Completion args s first) (k : κ) :
    Completion args (stepComplete args s k) (first.or (some k)) := by
  cases first with
  | none =>
    obtain ⟨honce, hopen, hothers⟩ := h
    simp only [stepComplete, hothers k, honce]
    refine ⟨?_, fun l hl => .inl ((proceed_of_ne s hl _).trans (hothers l))⟩
    rw [proceed_self]
    exact ⟨rfl, hopen⟩
  | some m =>
    obtain ⟨hat, hothers⟩ := h
    by_cases hk : k = m
    · subst hk
      -- inside `once.Do` the others are still before it
      have hnext : ∀ (pc : CompletePC) (s' : System ι κ T E), s.once = .running →
          s'.completes = (s.proceed k pc).completes → FirstAt args s' k pc →
          Completion args s' (some k) := by
        intro pc s' honce hcompletes hat'
        rw [Completion, hcompletes, proceed_self]
        refine ⟨hat', fun l hl => .inl ?_⟩
        rw [proceed_of_ne s hl]
        exact (hothers l hl).resolve_right fun hdone => nomatch honce.symm.trans hdone.1
      cases hpc : s.completes k with
      | enter => simp [FirstAt, hpc] at hat
      | store =>
        obtain ⟨honce, hopen⟩ := hpc ▸ hat
        simp only [stepComplete, hpc]
        exact hnext .close _ honce rfl ⟨honce, hopen, rfl⟩
      | close =>
        obtain ⟨honce, _, hstored⟩ := hpc ▸ hat
        simp only [stepComplete, hpc]
        exact hnext .leave _ honce rfl ⟨honce, rfl, hstored⟩
      | leave =>
        obtain ⟨honce, hclosed, hstored⟩ := hpc ▸ hat
        simp only [stepComplete, hpc]
        exact hnext .returned _ honce rfl ⟨rfl, hclosed, hstored⟩
      | returned =>
        simp only [stepComplete, hpc]
        exact ⟨hat, hothers⟩
    · rcases hothers k hk with henter | ⟨honce, hreturned⟩
      · cases honce : s.once with
        | idle => cases hpc : s.completes m <;> simp [FirstAt, hpc, honce] at hat
        | running =>
          simp only [stepComplete, henter, honce]
          exact ⟨hat, hothers⟩
        | finished =>
          simp only [stepComplete, henter, honce]
          refine ⟨?_, fun l hl => ?_⟩
          · rw [proceed_of_ne s (Ne.symm hk)]
            exact hat
          · by_cases hlk : l = k
            · exact .inr ⟨honce, hlk ▸ proceed_self s k .returned⟩
            · rw [proceed_of_ne s hlk]
              exact hothers l hl
      · simp only [stepComplete, hreturned]
        exact ⟨hat, hothers⟩

end Completes

section Runs

/-- The invariant of a future. -/
structure Coherent (args : κ → T × Option E) (first : Option κ) (s : System ι κ T E) : Prop where
  custody : Custody s
  completion : Completion args s first
  finishing : ∀ i, s.awaits i = .finish → s.state.closed = true
  results : ∀ i value err, s.awaits i = .returned (.result value err) →
    ∃ k, first = some k ∧ args k = (value, err)

/-- The first completion after an event. -/
def Event.first (first : Option κ) : Event ι κ E → Option κ
  | .complete k => first.or (some k)
  | _ => first

theorem foldl_first (first : Option κ) (events : List (Event ι κ E)) :
    events.foldl Event.first first = first.or (firstComplete events) := by
  induction events generalizing first with
  | nil => simp [firstComplete]
  | cons e events ih =>
    rw [List.foldl_cons, ih]
    cases e with
    | await i takesCtx => rfl
    | complete k => cases first <;> rfl
    | cancel i err => rfl

theorem firstComplete_append (events more : List (Event ι κ E)) :
    firstComplete (events ++ more) = (firstComplete events).or (firstComplete more) := by
  induction events with
  | nil => rfl
  | cons e events ih =>
    cases e with
    | await i takesCtx => exact ih
    | complete k => rfl
    | cancel i err => exact ih

variable {args : κ → T × Option E} {first : Option κ} {s : System ι κ T E}

theorem coherent_start [Inhabited T] : Coherent args none (start : System ι κ T E) where
  custody := .free rfl rfl fun _ => not_or.mpr ⟨id, id⟩
  completion := ⟨rfl, rfl, fun _ => rfl⟩
  finishing := nofun
  results := nofun

theorem Custody.congr {s' : System ι κ T E} (h : Custody s) (hawaits : s'.awaits = s.awaits)
    (hawaiting : s'.state.awaiting = s.state.awaiting)
    (hawaited : s'.state.awaited = s.state.awaited) : Custody s' := by
  cases h with
  | free ha hd hothers =>
    exact .free (hawaiting.trans ha) (hawaited.trans hd) (hawaits ▸ hothers)
  | busy i ha hd hi hothers =>
    exact .busy i (hawaiting.trans ha) (hawaited.trans hd) (hawaits ▸ hi) (hawaits ▸ hothers)
  | taken i ha hd hi hothers =>
    exact .taken i (hawaiting.trans ha) (hawaited.trans hd) (hawaits ▸ hi)
      (hawaits ▸ hothers)

theorem coherent_stepAwait [DecidableEq ι] (h : Coherent args first s) (i : ι) (takesCtx : Bool) :
    Coherent args first (stepAwait s i takesCtx) := by
  have hgoto : ∀ (pc : AwaitPC T E) (s' : System ι κ T E), Custody s' →
      s'.awaits = (s.goto i pc).awaits → s'.once = s.once → s'.completes = s.completes →
      s'.state.closed = s.state.closed → s'.state.value = s.state.value →
      s'.state.err = s.state.err → (pc = .finish → s.state.closed = true) →
      (∀ value err, pc = .returned (.result value err) →
        ∃ k, first = some k ∧ args k = (value, err)) → Coherent args first s' := by
    intro pc s' hcustody hawaits honce hcompletes hclosed hvalue herr hfinish hresult
    refine ⟨hcustody, h.completion.congr honce hcompletes hclosed hvalue herr, ?_, ?_⟩
    · intro j hj
      rw [hclosed]
      rcases goto_elim (· = .finish) (hawaits ▸ hj) with ⟨_, hnew⟩ | ⟨_, hold⟩
      · exact hfinish hnew
      · exact h.finishing j hold
    · intro j value err hj
      rcases goto_elim (· = .returned (.result value err)) (hawaits ▸ hj) with
        ⟨_, hnew⟩ | ⟨_, hold⟩
      · exact hresult value err hnew
      · exact h.results j value err hold
  have hcustody := custody_stepAwait h.custody i takesCtx
  cases awaitStep s i takesCtx with
  | blocked hs =>
    rw [hs]
    exact h
  | refused _ _ hs =>
    rw [hs] at hcustody ⊢
    exact hgoto _ _ hcustody rfl rfl rfl rfl rfl rfl nofun nofun
  | begun _ _ _ hs =>
    rw [hs] at hcustody ⊢
    exact hgoto _ _ hcustody rfl rfl rfl rfl rfl rfl nofun nofun
  | moved pc _ hnew hfinish hs =>
    rw [hs] at hcustody ⊢
    refine hgoto pc _ hcustody rfl rfl rfl rfl rfl rfl hfinish fun _ _ hpc => ?_
    rw [hpc] at hnew
    exact absurd hnew id
  | finished hpc hs =>
    rw [hs] at hcustody ⊢
    refine hgoto _ _ hcustody rfl rfl rfl rfl rfl rfl nofun fun value err hresult => ?_
    cases hresult
    exact h.completion.closed (h.finishing i hpc)
  | cancelled err _ hs =>
    rw [hs] at hcustody ⊢
    exact hgoto _ _ hcustody rfl rfl rfl rfl rfl rfl nofun nofun

variable [DecidableEq κ]

/-- What a step of `complete` leaves alone. -/
theorem stepComplete_frame (args : κ → T × Option E) (s : System ι κ T E) (k : κ) :
    (stepComplete args s k).awaits = s.awaits ∧
      (stepComplete args s k).state.awaiting = s.state.awaiting ∧
      (stepComplete args s k).state.awaited = s.state.awaited ∧
      (stepComplete args s k).ctx = s.ctx ∧
      (s.state.closed = true → (stepComplete args s k).state.closed = true) := by
  unfold stepComplete
  split
  all_goals first | exact ⟨rfl, rfl, rfl, rfl, id⟩ | exact ⟨rfl, rfl, rfl, rfl, fun _ => rfl⟩

variable [DecidableEq ι]

theorem coherent_step (h : Coherent args first s) (e : Event ι κ E) :
    Coherent args (e.first first) (step args s e) := by
  cases e with
  | await i takesCtx => exact coherent_stepAwait h i takesCtx
  | complete k =>
    obtain ⟨hawaits, hawaiting, hawaited, _, hmono⟩ := stepComplete_frame args s k
    refine ⟨h.custody.congr hawaits hawaiting hawaited, completion_stepComplete h.completion k,
      fun i hi => hmono (h.finishing i (hawaits ▸ hi)), fun i value err hi => ?_⟩
    obtain ⟨m, rfl, hargs⟩ := h.results i value err (hawaits ▸ hi)
    exact ⟨m, rfl, hargs⟩
  | cancel i err =>
    exact ⟨h.custody.congr rfl rfl rfl, h.completion.congr rfl rfl rfl rfl rfl, h.finishing,
      h.results⟩

theorem coherent_run (h : Coherent args first s) (events : List (Event ι κ E)) :
    Coherent args (first.or (firstComplete events)) (run (step args) s events) := by
  rw [← foldl_first]
  induction events generalizing first s with
  | nil => exact h
  | cons e events ih => exact ih (coherent_step h e)

end Runs

end Nylon.Core.Future
