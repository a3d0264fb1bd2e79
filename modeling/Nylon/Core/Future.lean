import Mathlib.Logic.Function.Basic
import Nylon.Lib.Transitions

/-!
Futures (`core/future.go`). Any number of `complete` and `Await` calls run at the same
time. Each call has its own place in the code; one step takes it through a section that a
mutex protects, or through an operation on a channel. A step of a call that is blocked
does nothing, so every list of steps is an interleaving.

`Sound` says what callers rely on: a result is consumed at most once and is never lost.
-/

namespace Nylon.Core.Future

open Lib.Transitions

/-- `closed` says whether the channel `done` is closed. -/
structure FutureState (T E : Type) where
  closed : Bool
  value : T
  err : Option E
  awaiting : Bool
  awaited : Bool

namespace FutureState

variable {T E : Type}

/-- Nothing for `ErrFutureAlreadyAwaited`. -/
def beginAwait (f : FutureState T E) : Option (FutureState T E) :=
  if f.awaited || f.awaiting then none else some {f with awaiting := true}

def finishAwait (f : FutureState T E) : T × Option E × FutureState T E :=
  (f.value, f.err, {f with awaiting := false, awaited := true})

def cancelAwait (f : FutureState T E) : FutureState T E := {f with awaiting := false}

end FutureState

/-- How a call of `Await` ends. -/
inductive Awaited (T E : Type) where
  | result (value : T) (err : Option E)
  | alreadyAwaited
  | cancelled (err : E)

/-- Where a call of `Await` is: before `beginAwait`, before either `select`, or before one
of the calls that end it. -/
inductive AwaitPC (T E : Type) where
  | begin
  | poll
  | select
  | finish
  | cancel (err : E)
  | returned (outcome : Awaited T E)

/-- Where a call of `complete` is: before `once.Do`, or inside it before the assignments,
before `close` or at its end. -/
inductive CompletePC where
  | enter
  | store
  | close
  | leave
  | returned

inductive Once where
  | idle
  | running
  | finished

/-- A future with its calls and their contexts. A context holds its error once it is
cancelled. -/
structure System (ι κ T E : Type) where
  state : FutureState T E
  once : Once
  awaits : ι → AwaitPC T E
  completes : κ → CompletePC
  ctx : ι → Option E

/-- One step of a call, or a cancellation. If both channels of a `select` are ready, the
step says which one is taken. -/
inductive Event (ι κ E : Type) where
  | await (i : ι) (takesCtx : Bool)
  | complete (k : κ)
  | cancel (i : ι) (err : E)

section Steps

variable {ι κ T E : Type} [DecidableEq ι] [DecidableEq κ]

/-- `NewFuture`, before any call. -/
def start [Inhabited T] : System ι κ T E where
  state := ⟨false, default, none, false, false⟩
  once := .idle
  awaits := fun _ => .begin
  completes := fun _ => .enter
  ctx := fun _ => none

def System.goto (s : System ι κ T E) (i : ι) (pc : AwaitPC T E) : System ι κ T E :=
  {s with awaits := Function.update s.awaits i pc}

def stepAwait (s : System ι κ T E) (i : ι) (takesCtx : Bool) : System ι κ T E :=
  match s.awaits i with
  | .begin =>
    match s.state.beginAwait with
    | none => s.goto i (.returned .alreadyAwaited)
    | some state => {s.goto i .poll with state := state}
  | .poll => s.goto i (if s.state.closed then .finish else .select)
  | .select =>
    match s.state.closed, s.ctx i with
    | true, none => s.goto i .finish
    | true, some err => s.goto i (if takesCtx then .cancel err else .finish)
    | false, some err => s.goto i (.cancel err)
    | false, none => s
  | .finish =>
    let (value, err, state) := s.state.finishAwait
    {s.goto i (.returned (.result value err)) with state := state}
  | .cancel err => {s.goto i (.returned (.cancelled err)) with state := s.state.cancelAwait}
  | .returned _ => s

def System.proceed (s : System ι κ T E) (k : κ) (pc : CompletePC) : System ι κ T E :=
  {s with completes := Function.update s.completes k pc}

/-- `args` are the arguments of the calls of `complete`. A call that finds another one
inside `once.Do` waits for it to leave. -/
def stepComplete (args : κ → T × Option E) (s : System ι κ T E) (k : κ) : System ι κ T E :=
  match s.completes k, s.once with
  | .enter, .idle => {s.proceed k .store with once := .running}
  | .enter, .running => s
  | .enter, .finished => s.proceed k .returned
  | .store, _ =>
    {s.proceed k .close with
      state := {s.state with value := (args k).1, err := (args k).2}}
  | .close, _ => {s.proceed k .leave with state := {s.state with closed := true}}
  | .leave, _ => {s.proceed k .returned with once := .finished}
  | .returned, _ => s

def step (args : κ → T × Option E) (s : System ι κ T E) : Event ι κ E → System ι κ T E
  | .await i takesCtx => stepAwait s i takesCtx
  | .complete k => stepComplete args s k
  | .cancel i err => {s with ctx := Function.update s.ctx i ((s.ctx i).or (some err))}

end Steps

variable {ι κ T E : Type}

/-- The call has passed `beginAwait` and has not ended. -/
def AwaitPC.InProgress : AwaitPC T E → Prop
  | .poll | .select | .finish | .cancel _ => True
  | .begin | .returned _ => False

def AwaitPC.HasResult : AwaitPC T E → Prop
  | .returned (.result _ _) => True
  | _ => False

/-- The call of `complete` that takes the first step. -/
def firstComplete : List (Event ι κ E) → Option κ
  | [] => none
  | .complete k :: _ => some k
  | _ :: events => firstComplete events

/-- A step of another call than an `Await`, or of the given one. -/
def Event.Alone (j : ι) : Event ι κ E → Prop
  | .await i _ => i = j
  | .complete _ => True
  | .cancel _ _ => False

section Soundness

variable [DecidableEq ι] [DecidableEq κ]

/-- What holds of a future after the given steps. -/
structure Sound (args : κ → T × Option E) (events : List (Event ι κ E))
    (s : System ι κ T E) : Prop where
  /-- A result is that of the first completion. -/
  first : ∀ i value err, s.awaits i = .returned (.result value err) →
    ∃ k, firstComplete events = some k ∧ args k = (value, err)
  /-- A call of `complete` that has returned has left the result of the first one behind,
  its own or another's. -/
  completed : ∀ k, s.completes k = .returned → s.state.closed = true ∧
    ∃ l, firstComplete events = some l ∧ args l = (s.state.value, s.state.err)
  /-- The first completion is never blocked, and the others end after it. -/
  completes : ∀ k, firstComplete events = some k → ∃ n ≤ 3, ∀ l,
    (run (step args) s (List.replicate n (.complete k) ++ [.complete l])).completes l = .returned
  /-- At most one call has the result. -/
  consumed_once : ∀ i j, (s.awaits i).HasResult → (s.awaits j).HasResult → i = j
  /-- A call that ends by cancellation leaves no flag behind, and no other call that is in
  progress or has the result. -/
  cancelled : ∀ i err takesCtx, s.awaits i = .cancel err →
    (step args s (.await i takesCtx)).awaits i = .returned (.cancelled err) ∧
      (step args s (.await i takesCtx)).state =
        {s.state with awaiting := false, awaited := false} ∧
      ∀ j, ¬ ((step args s (.await i takesCtx)).awaits j).InProgress ∧
        ¬ ((step args s (.await i takesCtx)).awaits j).HasResult
  /-- While no call is in progress or has the result, a call that runs alone gets it once
  the channel is closed or a completion has returned, unless its context is cancelled
  before. -/
  awaitable : (∀ i, ¬ (s.awaits i).InProgress) → (∀ i, ¬ (s.awaits i).HasResult) →
    ∀ j, s.awaits j = .begin → s.ctx j = none ∨ s.state.closed = true →
    ∀ more, (∀ e ∈ more, Event.Alone j e) → (run (step args) s more).state.closed = true ∨
      (∃ k, (run (step args) s more).completes k = .returned) →
    ∃ n ≤ 3, ∃ k, firstComplete (events ++ more) = some k ∧
      ∀ takesCtx, (run (step args) (run (step args) s more)
        (List.replicate n (.await j takesCtx))).awaits j = .returned (.result (args k).1 (args k).2)
  /-- A call fails exactly if another one is in progress or has the result, and then
  changes nothing. -/
  rejected : ∀ i takesCtx, s.awaits i = .begin →
    ((step args s (.await i takesCtx)).awaits i = .returned .alreadyAwaited ↔
      ∃ j, (s.awaits j).InProgress ∨ (s.awaits j).HasResult) ∧
    ((step args s (.await i takesCtx)).awaits i = .returned .alreadyAwaited →
      (step args s (.await i takesCtx)).state = s.state)

end Soundness

end Nylon.Core.Future
