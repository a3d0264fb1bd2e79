import Nylon.Core.Advertising

/-!
The calls of `Start` and `Stop` that an update makes on the health checks of the
local node. They are listed beside the model of `reconcileAdvertisedPrefixes`, so
that what happens to one monitor can be read off from the calls on it.
-/

namespace Nylon.Core

open Lib Netip State Polyamide

section Calls

/-- A call of `Start` or `Stop` on a health check. -/
inductive HealthCall where
  | start (h : Health)
  | stop (h : Health)
  deriving DecidableEq, Repr

def HealthCall.monitor : HealthCall → Nat × Option Prefix
  | .start h | .stop h => h.monitor

/-- The running monitors after a call. A static check has none. -/
def HealthCall.apply (running : List (Nat × Option Prefix)) :
    HealthCall → List (Nat × Option Prefix)
  | .start h => if h.settings.isMonitored then running ++ [h.monitor] else running
  | .stop h => running.filter (· ≠ h.monitor)

/-- A monitor that is not both started and stopped runs if it is started, or if it
was running and is not stopped. -/
theorem mem_foldl_apply {calls : List HealthCall} {mon : Nat × Option Prefix}
    (hapart : ∀ h h', .start h ∈ calls → .stop h' ∈ calls → h.monitor = mon →
      h'.monitor ≠ mon) (running : List (Nat × Option Prefix)) :
    mon ∈ calls.foldl HealthCall.apply running ↔
      (∃ h, .start h ∈ calls ∧ h.settings.isMonitored ∧ h.monitor = mon) ∨
        (mon ∈ running ∧ ∀ h, .stop h ∈ calls → h.monitor ≠ mon) := by
  induction calls generalizing running with
  | nil => simp
  | cons call rest ih =>
    have hrest : ∀ h h', .start h ∈ rest → .stop h' ∈ rest → h.monitor = mon → h'.monitor ≠ mon :=
      fun h h' hstart hstop => hapart h h' (.tail _ hstart) (.tail _ hstop)
    rw [List.foldl_cons, ih hrest]
    cases call with
    | start h =>
      by_cases hmonitored : h.settings.isMonitored
      · by_cases hmon : h.monitor = mon
        · have hnever : ∀ h', .stop h' ∈ rest → h'.monitor ≠ mon :=
            fun h' hstop => hapart h h' List.mem_cons_self (.tail _ hstop) hmon
          refine iff_of_true (Or.inr ⟨?_, hnever⟩)
            (Or.inl ⟨h, List.mem_cons_self, hmonitored, hmon⟩)
          rw [HealthCall.apply, if_pos hmonitored, hmon]
          exact List.mem_append_right _ List.mem_cons_self
        · have hne : mon ≠ h.monitor := fun heq => hmon heq.symm
          simp [HealthCall.apply, hmonitored, hne, or_and_right, exists_or, hmon]
      · simp [HealthCall.apply, hmonitored, or_and_right, exists_or]
    | stop h =>
      simp only [HealthCall.apply, List.mem_filter, List.mem_cons, reduceCtorEq, false_or,
        HealthCall.stop.injEq, forall_eq_or_imp, decide_eq_true_eq, ne_eq, and_assoc]
      rw [eq_comm (a := mon)]

end Calls

variable {T : Type → Type} {env : Env} {n : NylonNode T} {next : CentralCfg Health}

section PrefixCalls

/-- The calls of the first loop of `reconcileAdvertisedPrefixes`. -/
def stopLost (n : NylonNode T) (current desired : Table Prefix Health) : List HealthCall :=
  n.routerState.advertised.entries.flatMap fun entry =>
    if entry.2.nodeId ≠ n.localCfg.id ∨ (desired.lookup entry.1).isSome then []
    else (current.lookup entry.1).toList.map .stop

/-- The calls of the second loop for one prefix. -/
def desiredCalls (t : HealthTunables) (current : Table Prefix Health) (desired : Health) :
    List HealthCall :=
  match desired.settings.getPrefix with
  | none => []
  | some pfx =>
    match current.lookup pfx with
    | none => [.start desired]
    | some cur =>
      if cur.settings.sameConfig t desired.settings then []
      else [.stop cur, .start desired]

/-- All calls of `reconcileAdvertisedPrefixes`. -/
def prefixCalls (n : NylonNode T) (next : CentralCfg Health) : List HealthCall :=
  let current := healthByPrefix n.prefixes
  let desired := localPrefixes next n.localCfg.id
  stopLost n current (healthByPrefix desired) ++
    desired.flatMap (desiredCalls n.localCfg.health current)

theorem running_dropLost_eq (current desired : Table Prefix Health) :
    (dropLostPrefixes n current desired).running =
      (stopLost n current desired).foldl HealthCall.apply n.running := by
  unfold dropLostPrefixes stopLost
  refine Table.range_actions _ _ n (fun m : NylonNode T => m.localCfg.id = n.localCfg.id)
    (fun m => m.running) HealthCall.apply (fun p (adv : Advertisement) =>
      if adv.nodeId ≠ n.localCfg.id ∨ (desired.lookup p).isSome then []
      else (current.lookup p).toList.map .stop) rfl ?_
  intro m p adv _ hid
  rw [hid]
  split
  · exact ⟨rfl, hid⟩
  · cases current.lookup p <;> exact ⟨rfl, hid⟩

theorem running_advertiseDesired (current : Table Prefix Health) (m : NylonNode T)
    (desired : Health) :
    (advertiseDesired env current m desired).running =
      (desiredCalls m.localCfg.health current desired).foldl HealthCall.apply m.running := by
  unfold advertiseDesired desiredCalls
  cases hpfx : desired.settings.getPrefix with
  | none => rfl
  | some pfx =>
    simp only [chooseMonitor, hpfx, Option.bind_some]
    cases current.lookup pfx with
    | none =>
      simp only [List.foldl_cons, List.foldl_nil, HealthCall.apply]
      split <;> simp
    | some cur =>
      dsimp only
      split
      · rfl
      · simp only [List.foldl_cons, List.foldl_nil, HealthCall.apply]
        split <;> simp

/-- The monitors change by the calls only. -/
theorem running_reconcile_eq (env : Env) (n : NylonNode T) (next : CentralCfg Health) :
    (reconcileAdvertisedPrefixes env n next).running =
      (prefixCalls n next).foldl HealthCall.apply n.running := by
  unfold reconcileAdvertisedPrefixes prefixCalls
  dsimp only
  generalize healthByPrefix n.prefixes = current
  generalize localPrefixes next n.localCfg.id = desired
  have hfold : ∀ (ds : List Health) (m : NylonNode T), m.localCfg = n.localCfg →
      (ds.foldl (advertiseDesired env current) m).running =
        (ds.flatMap (desiredCalls n.localCfg.health current)).foldl HealthCall.apply
          m.running := by
    intro ds
    induction ds with
    | nil => exact fun _ _ => rfl
    | cons d rest ih =>
      intro m hm
      rw [List.foldl_cons, List.flatMap_cons, List.foldl_append,
        ih _ (by rw [advertiseDesired_frame]; exact hm), running_advertiseDesired, hm]
  have hframe := dropLostPrefixes_frame n current (healthByPrefix desired)
  rw [hfold desired _ (by rw [hframe]), running_dropLost_eq, List.foldl_append]

theorem mem_stopLost {current desired : Table Prefix Health} {call : HealthCall} :
    call ∈ stopLost n current desired ↔
      ∃ p h, call = .stop h ∧ current.lookup p = some h ∧ isLostPrefix n desired p := by
  unfold stopLost isLostPrefix
  rw [List.mem_flatMap]
  constructor
  · rintro ⟨entry, hentry, hcall⟩
    split at hcall
    · cases hcall
    · next hown =>
      obtain ⟨h, hcur, rfl⟩ := List.mem_map.mp hcall
      refine ⟨entry.1, h, rfl, by simpa using hcur, ?_⟩
      rw [(Table.mem_entries_iff _ entry.1 entry.2).mp hentry]
      simpa using hown
  · rintro ⟨p, h, rfl, hcur, hlost⟩
    rw [Bool.and_eq_true, Option.any_eq_true] at hlost
    obtain ⟨⟨adv, hadv, hown⟩, hnone⟩ := hlost
    refine ⟨⟨p, adv⟩, (Table.mem_entries_iff _ p adv).mpr hadv, ?_⟩
    rw [if_neg (by simpa using ⟨by simpa using hown, by simpa using hnone⟩), hcur]
    simp

/-- Unless the current check does the same, it is stopped and the desired one is started. -/
theorem mem_desiredCalls {t : HealthTunables} {current : Table Prefix Health} {d : Health}
    {call : HealthCall} :
    call ∈ desiredCalls t current d ↔ ∃ p, d.settings.getPrefix = some p ∧
      (∀ cur, current.lookup p = some cur → cur.settings.sameConfig t d.settings = false) ∧
      (call = .start d ∨ ∃ cur, current.lookup p = some cur ∧ call = .stop cur) := by
  unfold desiredCalls
  cases d.settings.getPrefix with
  | none => simp
  | some pfx =>
    cases hcur : current.lookup pfx with
    | none => simp [hcur]
    | some cur => by_cases hsame : cur.settings.sameConfig t d.settings <;> simp [hcur, hsame, or_comm]

theorem start_mem_prefixCalls {h : Health} :
    .start h ∈ prefixCalls n next ↔ h ∈ localPrefixes next n.localCfg.id ∧
      ∃ p, h.settings.getPrefix = some p ∧
        ∀ cur, (healthByPrefix n.prefixes).lookup p = some cur →
          cur.settings.sameConfig n.localCfg.health h.settings = false := by
  unfold prefixCalls
  simp only [List.mem_append, mem_stopLost, List.mem_flatMap, mem_desiredCalls, reduceCtorEq,
    false_and, exists_false, and_false, false_or, or_false, HealthCall.start.injEq]
  constructor
  · rintro ⟨_, hd, p, hp, hdiffers, rfl⟩
    exact ⟨hd, p, hp, hdiffers⟩
  · rintro ⟨hd, p, hp, hdiffers⟩
    exact ⟨h, hd, p, hp, hdiffers, rfl⟩

/-- What is stopped is a current check whose prefix is lost or gets a check that
does something else. -/
theorem stop_mem_prefixCalls {h : Health} : .stop h ∈ prefixCalls n next ↔
      ∃ p, (healthByPrefix n.prefixes).lookup p = some h ∧
        (isLostPrefix n (healthByPrefix (localPrefixes next n.localCfg.id)) p ∨
          ∃ d ∈ localPrefixes next n.localCfg.id, d.settings.getPrefix = some p ∧
            h.settings.sameConfig n.localCfg.health d.settings = false) := by
  unfold prefixCalls
  simp only [List.mem_append, mem_stopLost, List.mem_flatMap, mem_desiredCalls, reduceCtorEq,
    false_or, HealthCall.stop.injEq]
  constructor
  · rintro (⟨p, _, rfl, hcur, hlost⟩ | ⟨d, hd, p, hp, hdiffers, _, hcur, rfl⟩)
    · exact ⟨p, hcur, Or.inl hlost⟩
    · exact ⟨p, hcur, Or.inr ⟨d, hd, hp, hdiffers h hcur⟩⟩
  · rintro ⟨p, hcur, hlost | ⟨d, hd, hp, hdiffers⟩⟩
    · exact Or.inl ⟨p, h, rfl, hcur, hlost⟩
    · refine Or.inr ⟨d, hd, p, hp, fun cur hlookup => ?_, h, hcur, rfl⟩
      obtain rfl := Option.some.inj (hcur.symm.trans hlookup)
      exact hdiffers

end PrefixCalls

end Nylon.Core
