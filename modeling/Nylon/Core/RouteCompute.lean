import Mathlib.Tactic
import Nylon.Lib.Transitions

/-!
`ScheduleRouteCompute` (`core/router.go`) and the dispatch channel it goes through. Many
requests share one computation: a flag is set while one is on its way, first as a
timer, then as a task in the channel. The callback of the timer finds the channel full
and clears the flag in two steps, between which a request is dropped with it. Requests
come from tasks of the dispatch goroutine, so a computation and the store of the flag
after it are one step for them.
-/

namespace Nylon.Core

open Lib.Transitions

inductive DispatchTask where
  | computeRoutes
  | other
  deriving DecidableEq

structure ComputeSchedule where
  routeComputePending : Bool
  /-- Timers that have not fired. -/
  timers : Nat
  /-- Callbacks that were refused by the channel and have yet to clear the flag. -/
  refused : Nat
  dispatchChannel : List DispatchTask

inductive ScheduleEvent where
  | scheduleRouteCompute
  | fire
  | clear
  | dispatchOther
  | mainLoop
  deriving DecidableEq

namespace ComputeSchedule

def idle : ComputeSchedule := ⟨false, 0, 0, []⟩

variable (capacity : Nat)

/-- `Dispatch`: a function is dropped if the channel is full. -/
def dispatch (s : ComputeSchedule) (fn : DispatchTask) : ComputeSchedule × Bool :=
  if s.dispatchChannel.length < capacity then
    ({s with dispatchChannel := s.dispatchChannel ++ [fn]}, true)
  else (s, false)

def step (s : ComputeSchedule) : ScheduleEvent → ComputeSchedule
  | .scheduleRouteCompute =>
    if s.routeComputePending then s
    else {s with routeComputePending := true, timers := s.timers + 1}
  | .fire =>
    if s.timers = 0 then s
    else
      let (s, ok) := {s with timers := s.timers - 1}.dispatch capacity .computeRoutes
      if ok then s else {s with refused := s.refused + 1}
  | .clear =>
    if s.refused = 0 then s
    else {s with refused := s.refused - 1, routeComputePending := false}
  | .dispatchOther => (s.dispatch capacity .other).1
  | .mainLoop =>
    match s.dispatchChannel with
    | [] => s
    | .computeRoutes :: rest => {s with dispatchChannel := rest, routeComputePending := false}
    | .other :: rest => {s with dispatchChannel := rest}

/-- The computations on their way; one that was refused counts until the flag is
cleared. -/
def outstanding (s : ComputeSchedule) : Nat :=
  s.timers + s.refused + s.dispatchChannel.count .computeRoutes

/-- The flag is set exactly while one computation is on its way. -/
def Counted (s : ComputeSchedule) : Prop :=
  s.outstanding = s.routeComputePending.toNat

variable {capacity} {s : ComputeSchedule} {e : ScheduleEvent}

theorem step_counted (h : s.Counted) : (s.step capacity e).Counted := by
  have hflag := s.routeComputePending.toNat_le
  unfold Counted outstanding at *
  cases e with
  | scheduleRouteCompute =>
    cases hpending : s.routeComputePending <;> simp [step, hpending] at h ⊢ <;> omega
  | fire =>
    simp only [step, dispatch]
    repeat' split
    all_goals simp_all
    all_goals omega
  | clear =>
    simp only [step]
    split
    · exact h
    · simp only [Bool.toNat_false]
      omega
  | dispatchOther =>
    simp only [step, dispatch]
    split <;> simp [h]
  | mainLoop =>
    simp only [step]
    split
    · exact h
    next hchannel =>
      rw [hchannel, List.count_cons_self] at h
      simp only [Bool.toNat_false]
      omega
    next hchannel => simpa [hchannel] using h

theorem run_counted (capacity : Nat) (events : List ScheduleEvent) :
    (run (step capacity) idle events).Counted := by
  have hidle : idle.Counted := rfl
  exact run_invariant (fun _ _ h _ => step_counted h) hidle along_true

/-- In every order of requests, timers, refusals and tasks, the flag is set exactly while
one computation is on its way, and there are never two: it does not stay set without
one that will clear it. -/
theorem pending_iff_outstanding (capacity : Nat) (events : List ScheduleEvent) :
    (run (step capacity) idle events).outstanding =
      if (run (step capacity) idle events).routeComputePending then 1 else 0 := by
  rw [run_counted capacity events]
  cases (run (step capacity) idle events).routeComputePending <;> rfl

theorem step_refused (hroom : e = .fire → s.dispatchChannel.length < capacity)
    (h : s.refused = 0) : (s.step capacity e).refused = 0 := by
  cases e with
  | fire =>
    simp only [step, dispatch, if_pos (hroom rfl)]
    split <;> simp [h]
  | _ =>
    simp only [step, dispatch]
    repeat' split
    all_goals simp_all

theorem step_pending (hwaits : e = .mainLoop → s.dispatchChannel.head? ≠ some .computeRoutes)
    (hrefused : s.refused = 0) (h : s.routeComputePending = true) :
    (s.step capacity e).routeComputePending = true := by
  cases e with
  | mainLoop =>
    simp only [step]
    split
    · exact h
    next hchannel => exact (hwaits rfl (by rw [hchannel]; rfl)).elim
    · exact h
  | _ =>
    simp only [step, dispatch]
    repeat' split
    all_goals simp_all

/-- A request is not lost as long as the channel has room for its computation: until a
computation has started after it, exactly one is on its way. -/
theorem request_served (capacity : Nat) (before after : List ScheduleEvent)
    (hroom : Along (step capacity) (fun s e => e = .fire → s.dispatchChannel.length < capacity)
      idle (before ++ .scheduleRouteCompute :: after))
    (hwaits : Along (step capacity)
      (fun s e => e = .mainLoop → s.dispatchChannel.head? ≠ some .computeRoutes)
      (run (step capacity) idle (before ++ [.scheduleRouteCompute])) after) :
    let s := run (step capacity) idle (before ++ .scheduleRouteCompute :: after)
    s.timers + s.dispatchChannel.count .computeRoutes = 1 := by
  intro s
  have hcounted : s.Counted := run_counted capacity _
  obtain ⟨hbefore, -, hafter⟩ := along_append.mp hroom
  have hrefused := @run_invariant _ _ _ _ _ _ (fun s : ComputeSchedule => s.refused = 0)
    (fun _ _ h hroom => step_refused hroom h) rfl hbefore
  have hpending : ((run (step capacity) idle before).step capacity
      .scheduleRouteCompute).routeComputePending = true := by
    simp only [step]
    split
    · assumption
    · rfl
  have hrun : ∀ later, run (step capacity) idle (before ++ .scheduleRouteCompute :: later) =
      run (step capacity) ((run (step capacity) idle before).step capacity .scheduleRouteCompute)
        later := fun later => List.foldl_append ..
  rw [hrun] at hwaits
  obtain ⟨hnone, hset⟩ : s.refused = 0 ∧ s.routeComputePending = true := by
    rw [show s = _ from hrun after]
    exact @run_invariant _ _ _ _ _ _
      (fun s : ComputeSchedule => s.refused = 0 ∧ s.routeComputePending = true)
      (fun _ _ h hcond => ⟨step_refused hcond.1 h.1, step_pending hcond.2 h.1 h.2⟩)
      ⟨step_refused (by simp) hrefused, hpending⟩ (hafter.and hwaits)
  rw [Counted, outstanding, hnone, hset] at hcounted
  exact hcounted

theorem request_served_shared :
    let s := run (step 2) idle [.dispatchOther, .scheduleRouteCompute, .scheduleRouteCompute,
      .fire, .mainLoop]
    s.timers + s.dispatchChannel.count .computeRoutes = 1 :=
  request_served 2 [.dispatchOther, .scheduleRouteCompute] [.fire, .mainLoop] (by decide)
    (by decide)

end ComputeSchedule

end Nylon.Core
