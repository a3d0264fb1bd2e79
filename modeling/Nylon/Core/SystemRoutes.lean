import Nylon.Lib.Transitions
import Nylon.State.Netip
import Mathlib.Data.Finset.Basic

/-!
The routes in the kernel (`syncSystemRoutes` in `core/nylon_wireguard.go`). Each run
compares the computed routes with the ones remembered from the run before, and adds and
removes the difference. An error of one of these calls is logged, and the computed
routes are remembered all the same. From then on the kernel and what is remembered of it
differ, and a later run corrects the route only if it has to change it the other way.
-/

namespace Nylon.Core

open Lib Netip

/-- The commands that change the kernel's routes. -/
inductive RouteCall where
  | removeRoute (route : Prefix)
  | configureRoute (route : Prefix)
  deriving DecidableEq, Repr

def RouteCall.perform (kernel : Finset Prefix) : RouteCall → Finset Prefix
  | .removeRoute route => kernel.erase route
  | .configureRoute route => insert route kernel

/-- The nylon routes of the kernel, and `AppliedSystem.Routes`. -/
structure SystemRoutes where
  kernel : Finset Prefix
  applied : List Prefix

/-- What `ComputeSysRouteTable` returns in a run, and which of its calls fail. -/
structure RouteSync where
  newEntries : List Prefix
  fails : Nat → Bool

namespace SystemRoutes

def start : SystemRoutes := ⟨∅, []⟩

def routeCalls (s : SystemRoutes) (newEntries : List Prefix) : List RouteCall :=
  (s.applied.filter (· ∉ newEntries)).map .removeRoute ++
    (newEntries.filter (· ∉ s.applied)).map .configureRoute

/-- A call that fails has no effect. -/
def performAll (fails : Nat → Bool) (calls : List RouteCall) (kernel : Finset Prefix) :
    Finset Prefix :=
  calls.zipIdx.foldl (fun kernel call =>
    if fails call.2 then kernel else call.1.perform kernel) kernel

def syncSystemRoutes (s : SystemRoutes) (run : RouteSync) : SystemRoutes where
  kernel := performAll run.fails (s.routeCalls run.newEntries) s.kernel
  applied := run.newEntries

def Succeeds (s : SystemRoutes) (run : RouteSync) : Prop :=
  ∀ i < (s.routeCalls run.newEntries).length, run.fails i = false

instance (s : SystemRoutes) (run : RouteSync) : Decidable (s.Succeeds run) :=
  inferInstanceAs (Decidable (∀ i < _, _))

/-- For every route on which the kernel is not as remembered, the computed routes are as
the kernel. -/
def SidesWithKernel (s : SystemRoutes) (run : RouteSync) : Prop :=
  ∀ route, ¬ (route ∈ s.kernel ↔ route ∈ s.applied) →
    (route ∈ run.newEntries ↔ route ∈ s.kernel)

/-- After every run without a failing call the kernel has the computed routes. -/
def Recovers : SystemRoutes → List RouteSync → Prop :=
  Transitions.Along syncSystemRoutes fun s run =>
    s.Succeeds run → (s.syncSystemRoutes run).kernel = run.newEntries.toFinset

section Calls

variable {s : SystemRoutes} {run : RouteSync}

theorem performAll_of_succeeds {fails : Nat → Bool} {calls : List RouteCall}
    (h : ∀ i < calls.length, fails i = false) (kernel : Finset Prefix) :
    performAll fails calls kernel = calls.foldl RouteCall.perform kernel := by
  unfold performAll
  have hindex : ∀ call ∈ calls.zipIdx, fails call.2 = false := by
    rintro ⟨call, i⟩ hmem
    exact h i (List.snd_lt_of_mem_zipIdx hmem)
  generalize hzip : calls.zipIdx = zipped at hindex
  have hcalls : calls = zipped.map Prod.fst := by
    rw [← hzip, List.zipIdx_map_fst]
  rw [hcalls, List.foldl_map]
  clear hzip hcalls h
  induction zipped generalizing kernel with
  | nil => rfl
  | cons call rest ih =>
    rw [List.foldl_cons, List.foldl_cons, hindex call (by simp),
      ih _ fun other hother => hindex other (by simp [hother])]
    rfl

theorem mem_removed (routes : List Prefix) (kernel : Finset Prefix) (route : Prefix) :
    route ∈ (routes.map .removeRoute).foldl RouteCall.perform kernel ↔
      route ∈ kernel ∧ route ∉ routes := by
  induction routes generalizing kernel with
  | nil => simp
  | cons r rest ih =>
    rw [List.map_cons, List.foldl_cons, ih, RouteCall.perform, Finset.mem_erase,
      List.mem_cons, not_or]
    tauto

theorem mem_configured (routes : List Prefix) (kernel : Finset Prefix) (route : Prefix) :
    route ∈ (routes.map .configureRoute).foldl RouteCall.perform kernel ↔
      route ∈ kernel ∨ route ∈ routes := by
  induction routes generalizing kernel with
  | nil => simp
  | cons r rest ih =>
    rw [List.map_cons, List.foldl_cons, ih, RouteCall.perform, Finset.mem_insert, List.mem_cons]
    tauto

theorem mem_kernel_of_succeeds (h : s.Succeeds run) (route : Prefix) :
    route ∈ (s.syncSystemRoutes run).kernel ↔
      (route ∈ s.kernel ∧ (route ∈ s.applied → route ∈ run.newEntries)) ∨
        (route ∈ run.newEntries ∧ route ∉ s.applied) := by
  change route ∈ performAll run.fails (s.routeCalls run.newEntries) s.kernel ↔ _
  rw [performAll_of_succeeds h, routeCalls, List.foldl_append, mem_configured, mem_removed]
  simp only [List.mem_filter, decide_eq_true_eq, not_and, not_not]

/-- Where the kernel is as remembered, the difference is the right one. -/
theorem kernel_eq_iff (h : s.Succeeds run) :
    (s.syncSystemRoutes run).kernel = run.newEntries.toFinset ↔ s.SidesWithKernel run := by
  rw [Finset.ext_iff]
  unfold SidesWithKernel
  apply forall_congr'
  intro route
  rw [mem_kernel_of_succeeds h, List.mem_toFinset]
  tauto

end Calls

/-- Along every sequence of runs the kernel recovers exactly if, whenever a run without a
failing call starts, the computed routes side with the kernel. -/
theorem routes_recover_iff (runs : List RouteSync) : Recovers start runs ↔
      Transitions.Along syncSystemRoutes
        (fun s run => s.Succeeds run → s.SidesWithKernel run) start runs := by
  unfold Recovers
  generalize start = s
  induction runs generalizing s with
  | nil => exact Iff.rfl
  | cons run rest ih =>
    exact and_congr (imp_congr_right fun h => kernel_eq_iff h) (ih _)

def sampleRoute : Prefix := ⟨.v4 0x0A000100, 24, Prefix.bits24_le⟩

/-- The first attempt to add a route fails. The second run computes the same routes and
makes no call. -/
theorem failed_route_never_retried :
    let runs : List RouteSync := [⟨[sampleRoute], fun _ => true⟩, ⟨[sampleRoute], fun _ => false⟩]
    let final := Transitions.run syncSystemRoutes start runs
    final.applied = [sampleRoute] ∧ final.kernel = ∅ ∧ ¬ Recovers start runs := by
  refine ⟨rfl, by decide +kernel, ?_⟩
  rintro ⟨_, hsecond, _⟩
  have hkernel := hsecond (by decide +kernel)
  exact absurd hkernel (by decide +kernel)

end SystemRoutes

end Nylon.Core
