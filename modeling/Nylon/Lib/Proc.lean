import Mathlib.Data.List.Basic

/-!
Computations of one thread on a state that other threads read. A computation is
a function of the state it starts in; besides its result it records every state
it writes, so that a reader that looks at the state in between sees one of them.
What has been written before an error stays.

`Meets` is the triple of such a computation: a precondition, a property of every
written state, and a postcondition for each way to end. There is one rule for
each way to build a computation.
-/

namespace Lib

variable {σ ε α β γ : Type} {x : Except ε α} {f : α → Except ε β} {b : β} {xs : List α}

/-- What a fallible computation that succeeds has done. -/
theorem bind_eq_ok (h : (x >>= f) = .ok b) : ∃ a, x = .ok a ∧ f a = .ok b := by
  cases x with
  | error e => cases h
  | ok a => exact ⟨a, rfl, h⟩

theorem bind_eq_ok_iff : (x >>= f) = .ok b ↔ ∃ a, x = .ok a ∧ f a = .ok b := by
  refine ⟨bind_eq_ok, ?_⟩
  rintro ⟨a, rfl, hb⟩
  exact hb

theorem bind_eq_error {e : ε}
    (h : (x >>= f) = .error e) : x = .error e ∨ ∃ a, x = .ok a ∧ f a = .error e := by
  cases x with
  | error e' =>
    cases h
    exact Or.inl rfl
  | ok a => exact Or.inr ⟨a, rfl, h⟩

theorem mapError_eq_ok {ε' : Type} {f : ε → ε'} {a : α} (h : x.mapError f = .ok a) : x = .ok a := by
  cases x with
  | error e => cases h
  | ok a' => exact congrArg _ (Except.ok.inj h)

theorem mapError_eq_error {ε' : Type} {f : ε → ε'} {e : ε'}
    (h : x.mapError f = .error e) : ∃ err, x = .error err ∧ f err = e := by
  cases x with
  | error err => exact ⟨err, rfl, Except.error.inj h⟩
  | ok a => cases h

theorem toOption_eq_some {a : α} (h : x.toOption = some a) : x = .ok a := by
  cases x with
  | error e => cases h
  | ok a' => exact congrArg _ (Option.some.inj h)

/-- A loop that succeeds keeps what every successful iteration keeps. -/
theorem foldlM_invariant {f : β → α → Except ε β} {P : β → Prop}
    (hstep : ∀ b a b', P b → f b a = .ok b' → P b') {b' : β} (hinit : P b)
    (h : xs.foldlM f b = .ok b') : P b' := by
  induction xs generalizing b with
  | nil =>
    obtain rfl := Except.ok.inj h
    exact hinit
  | cons x rest ih =>
    rw [List.foldlM_cons] at h
    obtain ⟨next, hnext, hrest⟩ := bind_eq_ok h
    exact ih (hstep b x next hinit hnext) hrest

/-- A loop fails with the error of one of its iterations. -/
theorem foldlM_error {f : β → α → Except ε β} {Q : ε → Prop}
    (hstep : ∀ b a e, f b a = .error e → Q e) {e : ε}
    (h : xs.foldlM f b = .error e) : Q e := by
  induction xs generalizing b with
  | nil => cases h
  | cons x rest ih =>
    rw [List.foldlM_cons] at h
    rcases bind_eq_error h with hx | ⟨next, -, hrest⟩
    · exact hstep b x e hx
    · exact ih hrest

/-- A loop succeeds exactly if every iteration meets its condition, which may depend on
the elements before it. -/
theorem foldlM_cases {f : β → α → Except ε β} {l : List α}
    {I : List α → β → Prop} {P : List α → α → Prop} (hinit : I [] b)
    (hstep : ∀ done a rest s, l = done ++ a :: rest → I done s →
      (∃ s', f s a = .ok s' ∧ P done a ∧ I (done ++ [a]) s') ∨
        (∃ e, f s a = .error e) ∧ ¬ P done a) :
    (∃ s', l.foldlM f b = .ok s' ∧ I l s' ∧ ∀ done a rest, l = done ++ a :: rest → P done a) ∨
      (∃ e, l.foldlM f b = .error e) ∧ ∃ done a rest, l = done ++ a :: rest ∧ ¬ P done a := by
  -- the induction is on the part of the list that is left
  have hrest : ∀ left done s, l = done ++ left → I done s →
      (∃ s', left.foldlM f s = .ok s' ∧ I l s' ∧
          ∀ mid a rest, left = mid ++ a :: rest → P (done ++ mid) a) ∨
        (∃ e, left.foldlM f s = .error e) ∧
          ∃ mid a rest, left = mid ++ a :: rest ∧ ¬ P (done ++ mid) a := by
    intro left
    induction left with
    | nil =>
      intro done s hxs hs
      rw [List.append_nil] at hxs
      exact Or.inl ⟨s, rfl, hxs ▸ hs, fun mid a rest h => by simp at h⟩
    | cons x left ih =>
      intro done s hxs hs
      rw [List.foldlM_cons]
      rcases hstep done x left s hxs hs with ⟨s', hok, hP, hs'⟩ | ⟨⟨e, herr⟩, hP⟩
      · rw [hok]
        rcases ih (done ++ [x]) s' (by simp [hxs]) hs' with
          ⟨s'', hok', hs'', hall⟩ | ⟨⟨e, herr⟩, mid, a, rest, rfl, hnot⟩
        · refine Or.inl ⟨s'', hok', hs'', ?_⟩
          intro mid a rest heq
          rcases mid with _ | ⟨y, mid⟩
          · obtain ⟨rfl, rfl⟩ := List.cons.inj heq
            rwa [List.append_nil]
          · obtain ⟨rfl, rfl⟩ := List.cons.inj heq
            simpa using hall mid a rest rfl
        · exact Or.inr ⟨⟨e, herr⟩, x :: mid, a, rest, rfl, by simpa using hnot⟩
      · rw [herr]
        exact Or.inr ⟨⟨e, rfl⟩, [], x, left, rfl, by rwa [List.append_nil]⟩
  simpa using hrest l [] b rfl hinit

theorem forM_eq_ok {f : α → Except ε Unit} (h : xs.forM f = .ok ()) : ∀ x ∈ xs, f x = .ok () := by
  induction xs with
  | nil => simp
  | cons x rest ih =>
    change (f x >>= fun _ => rest.forM f) = _ at h
    obtain ⟨_, hx, hrest⟩ := bind_eq_ok h
    rintro y hy
    rcases List.mem_cons.mp hy with rfl | hy
    · exact hx
    · exact ih hrest y hy

theorem forM_eq_ok_iff {f : α → Except ε Unit} : xs.forM f = .ok () ↔ ∀ x ∈ xs, f x = .ok () := by
  refine ⟨forM_eq_ok, fun h => ?_⟩
  induction xs with
  | nil => rfl
  | cons x rest ih =>
    change (f x >>= fun _ => rest.forM f) = _
    rw [h x List.mem_cons_self]
    exact ih fun y hy => h y (List.mem_cons_of_mem _ hy)

/-- A check of what a computation returns, for results that are evaluated. -/
theorem exists_of_any {p : α → Bool} (h : x.toOption.any p = true) :
    ∃ a, x = .ok a ∧ p a = true := by
  cases x with
  | error e => cases h
  | ok a => exact ⟨a, rfl, h⟩

structure Outcome (σ ε α : Type) where
  written : List σ
  state : σ
  result : Except ε α

def Proc (σ ε α : Type) : Type := σ → Outcome σ ε α

namespace Proc

protected def pure (a : α) : Proc σ ε α := fun s => ⟨[], s, .ok a⟩

protected def bind (p : Proc σ ε α) (f : α → Proc σ ε β) : Proc σ ε β := fun s =>
  match p s with
  | ⟨written, t, .error e⟩ => ⟨written, t, .error e⟩
  | ⟨written, t, .ok a⟩ =>
    let rest := f a t
    ⟨written ++ rest.written, rest.state, rest.result⟩

instance : Monad (Proc σ ε) where
  pure := Proc.pure
  bind := Proc.bind

def get : Proc σ ε σ := fun s => ⟨[], s, .ok s⟩

/-- One write that other threads see. -/
def modify (f : σ → σ) : Proc σ ε Unit := fun s => ⟨[f s], f s, .ok ()⟩

def throw (e : ε) : Proc σ ε α := fun s => ⟨[], s, .error e⟩

def lift : Except ε α → Proc σ ε α
  | .ok a => pure a
  | .error e => throw e

def forEach (body : γ → Proc σ ε Unit) : List γ → Proc σ ε Unit
  | [] => pure ()
  | x :: rest => do
    body x
    forEach body rest

theorem state_bind_of_ok {p : Proc σ ε α} {f : α → Proc σ ε β} {s : σ} {a : α}
    (h : (p s).result = .ok a) : ((p >>= f) s).state = (f a (p s).state).state := by
  change (Proc.bind p f s).state = _
  unfold Proc.bind
  generalize p s = first at h
  obtain ⟨written, t, result⟩ := first
  cases h
  rfl

/-- Started in a state with `pre`, the computation writes only states with
`seen`, and ends in a state with `post` or, after an error, with `fail`. -/
def Meets (pre : σ → Prop) (p : Proc σ ε α) (seen : σ → Prop)
    (post : α → σ → Prop) (fail : ε → σ → Prop) : Prop :=
  ∀ s, pre s → (∀ t ∈ (p s).written, seen t) ∧
    match (p s).result with
    | .ok a => post a (p s).state
    | .error e => fail e (p s).state

section Rules

variable {pre seen : σ → Prop} {post : β → σ → Prop} {fail : ε → σ → Prop}

/-- The rules below run a computation from a state with a name. -/
theorem Meets.of_states {p : Proc σ ε β}
    (h : ∀ s, pre s → Meets (· = s) p seen post fail) : Meets pre p seen post fail :=
  fun s hs => h s hs s rfl

theorem Meets.start {p : Proc σ ε β} (h : Meets pre p seen post fail) {s : σ} (hs : pre s) :
    Meets (· = s) p seen post fail := by
  rintro _ rfl
  exact h _ hs

theorem Meets.weaken {pre' seen' : σ → Prop} {post' : β → σ → Prop}
    {fail' : ε → σ → Prop} {p : Proc σ ε β} (hp : Meets pre' p seen' post' fail')
    (hpre : ∀ s, pre s → pre' s) (hseen : ∀ s, seen' s → seen s)
    (hpost : ∀ b s, post' b s → post b s) (hfail : ∀ e s, fail' e s → fail e s) :
    Meets pre p seen post fail := by
  intro s hs
  obtain ⟨hwritten, hend⟩ := hp s (hpre s hs)
  refine ⟨fun t ht => hseen t (hwritten t ht), ?_⟩
  generalize (p s).result = result at hend
  cases result with
  | ok b => exact hpost b _ hend
  | error e => exact hfail e _ hend

theorem Meets.bind {m : α → σ → Prop} {p : Proc σ ε α} {f : α → Proc σ ε β}
    (hp : Meets pre p seen m fail) (hf : ∀ a, Meets (m a) (f a) seen post fail) :
    Meets pre (p >>= f) seen post fail := by
  intro s hs
  have hfirst := hp s hs
  change (∀ t ∈ (Proc.bind p f s).written, seen t) ∧
    match (Proc.bind p f s).result with
    | .ok b => post b (Proc.bind p f s).state
    | .error e => fail e (Proc.bind p f s).state
  unfold Proc.bind
  generalize p s = first at hfirst
  obtain ⟨written, t, result⟩ := first
  cases result with
  | error e => exact hfirst
  | ok a =>
    obtain ⟨hrest, hend⟩ := hf a t hfirst.2
    refine ⟨fun u hu => ?_, hend⟩
    rcases List.mem_append.mp hu with h | h
    · exact hfirst.1 u h
    · exact hrest u h

variable {s : σ}

theorem Meets.pure {b : β} (h : post b s) :
    Meets (· = s) (Pure.pure b : Proc σ ε β) seen post fail := by
  rintro _ rfl
  exact ⟨fun _ hmem => absurd hmem List.not_mem_nil, h⟩

theorem Meets.throw {e : ε} (h : fail e s) :
    Meets (· = s) (throw e : Proc σ ε β) seen post fail := by
  rintro _ rfl
  exact ⟨fun _ hmem => absurd hmem List.not_mem_nil, h⟩

theorem Meets.modify {f : σ → σ} {q : Unit → σ → Prop} (hseen : seen (f s))
    (hpost : q () (f s)) : Meets (· = s) (modify f) seen q fail := by
  rintro _ rfl
  refine ⟨fun t ht => ?_, hpost⟩
  rw [List.mem_singleton.mp ht]
  exact hseen

theorem Meets.get_bind {f : σ → Proc σ ε β} (hf : Meets (· = s) (f s) seen post fail) :
    Meets (· = s) (get >>= f) seen post fail := by
  refine Meets.bind (m := fun a t => a = s ∧ t = s) ?_ fun a => ?_
  · rintro _ rfl
    exact ⟨fun _ hmem => absurd hmem List.not_mem_nil, rfl, rfl⟩
  · rintro t ⟨rfl, rfl⟩
    exact hf t rfl

theorem Meets.modify_bind {g : σ → σ} {f : Unit → Proc σ ε β} (hseen : seen (g s))
    (hf : Meets (· = g s) (f ()) seen post fail) :
    Meets (· = s) (Proc.modify g >>= f) seen post fail :=
  Meets.bind (Meets.modify (q := fun _ t => t = g s) hseen rfl) fun _ => hf

theorem Meets.lift_bind {r : Except ε α} {f : α → Proc σ ε β}
    (hok : ∀ a, r = .ok a → Meets (· = s) (f a) seen post fail)
    (herror : ∀ e, r = .error e → fail e s) :
    Meets (· = s) (lift r >>= f) seen post fail := by
  cases r with
  | ok a =>
    refine Meets.bind (m := fun b t => b = a ∧ t = s) (Meets.pure ⟨rfl, rfl⟩) ?_
    rintro b t ⟨rfl, rfl⟩
    exact hok b rfl t rfl
  | error e =>
    exact Meets.bind (m := fun _ _ => False) (Meets.throw (herror e rfl))
      fun _ _ hfalse => hfalse.elim

/-- The loop rule. The invariant may depend on the elements that are left. -/
theorem Meets.forEach {l : List γ → σ → Prop} {body : γ → Proc σ ε Unit}
    {xs : List γ} (hbody : ∀ x rest, x ∈ xs → Meets (l (x :: rest)) (body x) seen
      (fun _ => l rest) fail) :
    Meets (l xs) (forEach body xs) seen (fun _ => l []) fail := by
  induction xs with
  | nil => exact Meets.of_states fun _ hs => Meets.pure hs
  | cons x rest ih =>
    exact (hbody x rest List.mem_cons_self).bind fun _ =>
      ih fun y rest' hy => hbody y rest' (List.mem_cons_of_mem _ hy)

end Rules

end Proc

end Lib
