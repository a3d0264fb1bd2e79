import Nylon.Core.ApplySpec

/-!
What the local node advertises after an update (`reconcileAdvertisedPrefixes`):
its own prefixes with the health checks that were kept or started, and whatever
is advertised for other nodes under other prefixes.
-/

namespace Nylon.Core

open Lib Netip State Polyamide

section HealthByPrefix

variable {hs : List Health} {p : Prefix} {h : Health}

theorem healthByPrefix_append (hs : List Health) (h : Health) :
    healthByPrefix (hs ++ [h]) = match h.settings.getPrefix with
      | none => healthByPrefix hs
      | some pfx => (healthByPrefix hs).insert pfx h := by
  unfold healthByPrefix
  rw [List.foldl_append]
  rfl

theorem mem_of_healthByPrefix (hlookup : (healthByPrefix hs).lookup p = some h) :
    h ∈ hs ∧ h.settings.getPrefix = some p := by
  induction hs using List.reverseRecOn with
  | nil => simp [healthByPrefix] at hlookup
  | append_singleton hs last ih =>
    rw [healthByPrefix_append] at hlookup
    cases hlast : last.settings.getPrefix with
    | none =>
      rw [hlast] at hlookup
      exact ⟨List.mem_append_left _ (ih hlookup).1, (ih hlookup).2⟩
    | some pfx =>
      simp only [hlast, Table.lookup_insert_eq] at hlookup
      split at hlookup
      · next heq =>
        cases hlookup
        exact ⟨List.mem_append_right _ List.mem_cons_self, heq ▸ hlast⟩
      · exact ⟨List.mem_append_left _ (ih hlookup).1, (ih hlookup).2⟩

theorem healthByPrefix_isSome (hmem : h ∈ hs)
    (hp : h.settings.getPrefix = some p) : ((healthByPrefix hs).lookup p).isSome := by
  induction hs using List.reverseRecOn with
  | nil => cases hmem
  | append_singleton hs last ih =>
    rw [healthByPrefix_append]
    cases hlast : last.settings.getPrefix with
    | none =>
      refine ih ?_
      rcases List.mem_append.mp hmem with hold | hnew
      · exact hold
      · rw [List.mem_singleton.mp hnew, hlast] at hp
        cases hp
    | some pfx =>
      simp only [Table.lookup_insert_eq]
      split
      · rfl
      · next hne =>
        refine ih ?_
        rcases List.mem_append.mp hmem with hold | hnew
        · exact hold
        · rw [List.mem_singleton.mp hnew, hlast] at hp
          exact absurd (Option.some.inj hp).symm hne

/-- With distinct prefixes each health check is the one of its prefix. -/
theorem lookup_healthByPrefix (hdistinct : (hs.map (·.settings.getPrefix)).Nodup) (hmem : h ∈ hs)
    (hp : h.settings.getPrefix = some p) : (healthByPrefix hs).lookup p = some h := by
  obtain ⟨other, hother⟩ := Option.isSome_iff_exists.mp (healthByPrefix_isSome hmem hp)
  obtain ⟨hmem', hp'⟩ := mem_of_healthByPrefix hother
  have heq : other = h := List.inj_on_of_nodup_map hdistinct hmem' hmem (hp'.trans hp.symm)
  rw [hother, heq]

end HealthByPrefix

section ChooseHealth

theorem withDefaults_chooseHealth (t : HealthTunables) (current : Table Prefix Health)
    (desired : Health) :
    (chooseHealth t current desired).settings.withDefaults t = desired.settings.withDefaults t := by
  unfold chooseHealth
  split
  · simp [Health.started]
  · split
    · next hsame => exact (PrefixHealth.sameConfig_iff t _ _).mp hsame
    · simp [Health.started]

theorem getPrefix_chooseHealth (t : HealthTunables) (current : Table Prefix Health)
    (d : Health) : (chooseHealth t current d).settings.getPrefix = d.settings.getPrefix := by
  rw [← PrefixHealth.getPrefix_withDefaults t, withDefaults_chooseHealth,
    PrefixHealth.getPrefix_withDefaults]

end ChooseHealth

variable {T : Type → Type}

/-- What is advertised for a prefix: the node, until when, whether the client is
on hold, and the health check behind it. -/
def advertisedAs (n : NylonNode T) (p : Prefix) : Option (NodeId × Time × Bool × Option Health) :=
  (n.routerState.advertised.lookup p).map fun adv =>
    (adv.nodeId, adv.expiry, adv.isPassiveHold, n.metricFn.lookup p)

/-- An advertisement of the local node for a prefix it does not have any more. -/
def isLostPrefix (n : NylonNode T) (desired : Table Prefix Health) (p : Prefix) : Bool :=
  (n.routerState.advertised.lookup p).any (·.nodeId = n.localCfg.id) &&
    (desired.lookup p).isNone

theorem advertisedAs_dropLostPrefixes (n : NylonNode T) (current desired : Table Prefix Health)
    (p : Prefix) :
    advertisedAs (dropLostPrefixes n current desired) p =
      if isLostPrefix n desired p then none else advertisedAs n p := by
  have hloop : (fun m : NylonNode T => (m.localCfg.id, advertisedAs m p))
      (dropLostPrefixes n current desired) =
        (n.routerState.advertised.lookup p).elim (n.localCfg.id, advertisedAs n p) fun adv =>
          if adv.nodeId ≠ n.localCfg.id ∨ (desired.lookup p).isSome then
            (n.localCfg.id, advertisedAs n p) else (n.localCfg.id, none) := by
    -- the loop reads the id of the local node, which it never changes
    unfold dropLostPrefixes
    refine (Table.range_pointwise n.routerState.advertised _ n
      (fun m : NylonNode T => (m.localCfg.id, advertisedAs m p)) p
      (fun adv seen => if adv.nodeId ≠ seen.1 ∨ (desired.lookup p).isSome then seen
        else (seen.1, none)) ?_ ?_).trans (by cases n.routerState.advertised.lookup p <;> rfl)
    · intro m adv _
      dsimp only
      split
      · rfl
      · simp [advertisedAs]
    · intro m k adv _ hne
      dsimp only
      split
      · rfl
      · simp [advertisedAs, hne.symm]
  have hsnd := congrArg Prod.snd hloop
  dsimp only at hsnd
  rw [hsnd]
  unfold isLostPrefix
  cases hadv : n.routerState.advertised.lookup p with
  | none => simp
  | some adv => by_cases hid : adv.nodeId = n.localCfg.id <;> cases desired.lookup p <;> simp [hid]

theorem advertisedAs_advertiseDesired (env : Env) (current : Table Prefix Health)
    (n : NylonNode T) (desired : Health) (p : Prefix) :
    advertisedAs (advertiseDesired env current n desired) p =
      if desired.settings.getPrefix = some p then
        some (n.localCfg.id, maxConfigTime, false,
          some (chooseHealth n.localCfg.health current desired))
      else advertisedAs n p := by
  unfold advertiseDesired
  cases hpfx : desired.settings.getPrefix with
  | none => simp
  | some pfx =>
    simp only [advertisedAs, Table.lookup_insert_eq, Option.some.injEq, eq_comm]
    split
    · rfl
    · rfl

theorem advertisedAs_reconcile (env : Env) (n : NylonNode T) (next : CentralCfg Health)
    (p : Prefix) :
    advertisedAs (reconcileAdvertisedPrefixes env n next) p =
      match (healthByPrefix (localPrefixes next n.localCfg.id)).lookup p with
      | some h => some (n.localCfg.id, maxConfigTime, false,
          some (chooseHealth n.localCfg.health
            (healthByPrefix n.prefixes) h))
      | none => if (n.routerState.advertised.lookup p).any (·.nodeId = n.localCfg.id) then none
          else advertisedAs n p := by
  unfold reconcileAdvertisedPrefixes
  dsimp only
  generalize healthByPrefix n.prefixes = current
  generalize localPrefixes next n.localCfg.id = desired
  have hframe := dropLostPrefixes_frame n current (healthByPrefix desired)
  have hfold : ∀ (hs : List Health) (m : NylonNode T), m.localCfg = n.localCfg →
      (hs.foldl (advertiseDesired env current) m).localCfg = n.localCfg ∧
      advertisedAs (hs.foldl (advertiseDesired env current) m) p =
        match (healthByPrefix hs).lookup p with
        | some h => some (n.localCfg.id, maxConfigTime, false,
            some (chooseHealth n.localCfg.health current h))
        | none => advertisedAs m p := by
    intro hs m hm
    induction hs using List.reverseRecOn with
    | nil => exact ⟨hm, by simp [healthByPrefix]⟩
    | append_singleton hs last ih =>
      obtain ⟨hlocal, hlookup⟩ := ih
      rw [List.foldl_append, List.foldl_cons, List.foldl_nil,
        advertisedAs_advertiseDesired, hlocal, hlookup, healthByPrefix_append]
      refine ⟨?_, ?_⟩
      · rw [(advertiseDesired_frame env current _ last), hlocal]
      · cases hlast : last.settings.getPrefix with
        | none => simp
        | some pfx =>
          simp only [Option.some.injEq, Table.lookup_insert_eq, eq_comm]
          split <;> rfl
  rw [(hfold desired _ (by rw [hframe])).2, advertisedAs_dropLostPrefixes]
  cases hdesired : (healthByPrefix desired).lookup p with
  | some h => rfl
  | none => simp [isLostPrefix, hdesired]

end Nylon.Core
