import Nylon.Core.TaskSpec
import Nylon.State.Distribution

/-!
Distribution of central configurations (`core/nylon_distribution.go`). A check
starts one goroutine for each repository, with the key and the timestamp in force
at that time. A goroutine that has read and opened a newer bundle hands it to the
dispatch goroutine, which compares its timestamp once more and applies it. Other
tasks run in between, and so do updates of other goroutines.

The timestamp is compared when an update is applied, the key only when it is
fetched: an update that changes the key leaves updates under the old key behind.
-/

namespace Nylon.Core

open Lib State

/-- A goroutine of `checkForConfigUpdates` that is reading its repository. -/
structure Fetch where
  repo : String
  key : NyPublicKey
  currentTimestamp : Int

/-- A configuration that waits for the dispatch goroutine, and where it comes
from. -/
structure Update where
  body : Bytes
  key : NyPublicKey
  config : CentralCfg PrefixHealth

structure Distributor (T : Type → Type) where
  node : NylonNode T
  fetches : List Fetch
  updates : List Update

inductive DistributionEvent where
  | check
  /-- A goroutine ends; this is what its repository has. -/
  | fetched (i : Nat) (served : Except String Bytes)
  | dispatch (i : Nat) (env : Env)
  /-- Any other task of the dispatch goroutine, among them reloads. -/
  | task (task : NodeTask)

variable {T : Type → Type}

namespace Distributor

def checkForConfigUpdates (s : Distributor T) : Distributor T :=
  match s.node.centralCfg.dist with
  | none => s
  | some dist =>
    let started := dist.repos.map fun repo =>
      (⟨repo, dist.key, s.node.centralCfg.timestamp⟩ : Fetch)
    {s with fetches := s.fetches ++ started}

/-- The update that is passed to `ApplyCentralConfig`, if it is newer than the
configuration in force. -/
def dispatched (s : Distributor T) (i : Nat) : Option Update :=
  s.updates[i]?.filter fun u => s.node.centralCfg.timestamp < u.config.timestamp

end Distributor

section Machine

variable (libs : Libraries) (bundles : BundleLibraries) (maxConfigSize : Nat)

/-- What a goroutine hands over. -/
def fetchedUpdate (f : Fetch) (served : Except String Bytes) : Option Update := do
  let body ← (fetchBody libs.toConfigLibraries f.repo maxConfigSize served).toOption
  let config ← (fetchConfig libs.toConfigLibraries bundles f.repo f.key maxConfigSize
    served).toOption
  if config.timestamp ≤ f.currentTimestamp then none else some ⟨body, f.key, config⟩

variable [PrefixTable T]

def distributionStep (s : Distributor T) : DistributionEvent → Option (Distributor T)
  | .check => some s.checkForConfigUpdates
  | .fetched i served =>
    match s.fetches[i]? with
    | none => some s
    | some f =>
      some { s with
        fetches := s.fetches.eraseIdx i
        updates := s.updates ++
          (fetchedUpdate libs bundles maxConfigSize f served).toList }
  | .dispatch i env =>
    match s.dispatched i with
    | none => some {s with updates := s.updates.eraseIdx i}
    | some u =>
      (afterTask libs (some s.node) (.apply env u.config)).map fun node =>
        {s with node := node, updates := s.updates.eraseIdx i}
  | .task task =>
    (afterTask libs (some s.node) task).map fun node => {s with node := node}

/-- The node and its goroutines after some events, or `none` after a panic. -/
def distributionRun (n : NylonNode T) (events : List DistributionEvent) : Option (Distributor T) :=
  Transitions.run (fun s e => s.bind (distributionStep libs bundles maxConfigSize · e))
    (some ⟨n, [], []⟩) events

variable {libs bundles maxConfigSize}

theorem fetchedUpdate_spec {f : Fetch} {served : Except String Bytes} {u : Update}
    (h : fetchedUpdate libs bundles maxConfigSize f served = some u) :
    u.key = f.key ∧ unbundleConfig libs.toConfigLibraries bundles u.body u.key = .ok u.config := by
  unfold fetchedUpdate at h
  obtain ⟨body, hbody, h⟩ := Option.bind_eq_some_iff.mp h
  obtain ⟨config, hconfig, h⟩ := Option.bind_eq_some_iff.mp h
  split at h
  · cases h
  · cases h
    refine ⟨rfl, ?_⟩
    obtain ⟨body', hbody', hunbundle⟩ := bind_eq_ok (toOption_eq_some hconfig)
    obtain rfl : body = body' := Except.ok.inj ((toOption_eq_some hbody).symm.trans hbody')
    exact mapError_eq_ok hunbundle

end Machine

section Keys

variable (libs : Libraries) (bundles : BundleLibraries)

def keyInForce (n : NylonNode T) : Option NyPublicKey :=
  n.centralCfg.dist.map (·.key)

/-- A configuration that passes the checks does not change the key. -/
def KeepsKey (n : NylonNode T) (cfg : CentralCfg PrefixHealth) : Prop :=
  ∀ next, acceptConfig libs n cfg = .ok next → next.dist.map (·.key) = keyInForce n

/-- The key changes only while no other fetch or update is under way. -/
def KeyChangesAlone (s : Option (Distributor T)) (e : DistributionEvent) : Prop :=
  ∀ d ∈ s, match e with
    | .check | .fetched _ _ => True
    | .dispatch i _ => ∀ u ∈ d.dispatched i, KeepsKey libs d.node u.config ∨
        (d.fetches = [] ∧ d.updates.eraseIdx i = [])
    | .task task => ∀ cfg ∈ task.config?, KeepsKey libs d.node cfg ∨
        (d.fetches = [] ∧ d.updates = [])

/-- Whatever is under way has been opened with the key in force. -/
structure KeysInForce (s : Distributor T) : Prop where
  fetches : ∀ f ∈ s.fetches, keyInForce s.node = some f.key
  updates : ∀ u ∈ s.updates, keyInForce s.node = some u.key ∧
    unbundleConfig libs.toConfigLibraries bundles u.body u.key = .ok u.config

variable {libs bundles}

theorem KeysInForce.congr {s : Distributor T} (h : KeysInForce libs bundles s)
    {s' : Distributor T} (hkey : keyInForce s'.node = keyInForce s.node)
    (hfetches : ∀ f ∈ s'.fetches, f ∈ s.fetches) (hupdates : ∀ u ∈ s'.updates, u ∈ s.updates) :
    KeysInForce libs bundles s' := by
  constructor
  · intro f hf
    rw [hkey]
    exact h.fetches f (hfetches f hf)
  · intro u hu
    rw [hkey]
    exact h.updates u (hupdates u hu)

variable [PrefixTable T]

/-- The key in force after a task is the old one or that of the configuration the
task has applied. -/
theorem keyInForce_afterTask {n m : NylonNode T} {task : NodeTask}
    (h : afterTask libs (some n) task = some m) :
    keyInForce m = keyInForce n ∨ ∃ cfg ∈ task.config?, ∃ next,
      acceptConfig libs n cfg = .ok next ∧ keyInForce m = next.dist.map (·.key) := by
  rcases centralCfg_afterTask h with hsame | ⟨cfg, hcfg, next, hnext, hnew⟩
  · exact Or.inl (congrArg (fun c => c.dist.map (·.key)) hsame)
  · exact Or.inr ⟨cfg, hcfg, next, hnext, congrArg (fun c => c.dist.map (·.key)) hnew⟩

/-- An update that keeps the key, or happens alone, keeps the invariant. -/
theorem KeysInForce.afterTask {s : Distributor T} (h : KeysInForce libs bundles s)
    {task : NodeTask} {node : NylonNode T} (hnode : afterTask libs (some s.node) task = some node)
    (hcfg : ∀ cfg ∈ task.config?, KeepsKey libs s.node cfg ∨
      (s.fetches = [] ∧ s.updates = [])) :
    KeysInForce libs bundles {s with node := node} := by
  rcases keyInForce_afterTask hnode with hkey | ⟨cfg, hmem, next, hnext, hkey⟩
  · exact h.congr hkey (fun _ hf => hf) fun _ hu => hu
  · rcases hcfg cfg hmem with hkeeps | ⟨hfetches, hupdates⟩
    · exact h.congr (hkey.trans (hkeeps next hnext)) (fun _ hf => hf) fun _ hu => hu
    · constructor
      · simp [hfetches]
      · simp [hupdates]

theorem KeysInForce.step {maxConfigSize : Nat} {s s' : Distributor T}
    (h : KeysInForce libs bundles s) {e : DistributionEvent}
    (hstep : distributionStep libs bundles maxConfigSize s e = some s')
    (hkey : KeyChangesAlone libs (some s) e) : KeysInForce libs bundles s' := by
  have hkey := hkey s rfl
  cases e with
  | check =>
    cases hstep
    unfold Distributor.checkForConfigUpdates
    split
    · exact h
    · next dist hdist =>
      refine ⟨fun f hf => ?_, h.updates⟩
      rcases List.mem_append.mp hf with hf | hf
      · exact h.fetches f hf
      · obtain ⟨repo, _, rfl⟩ := List.mem_map.mp hf
        exact congrArg (Option.map (·.key)) hdist
  | fetched i served =>
    unfold distributionStep at hstep
    dsimp only at hstep
    split at hstep
    · cases hstep
      exact h
    · next f hf =>
      cases hstep
      refine ⟨fun g hg => h.fetches g (List.mem_of_mem_eraseIdx hg), fun u hu => ?_⟩
      rcases List.mem_append.mp hu with hu | hu
      · exact h.updates u hu
      · obtain ⟨hsame, hopened⟩ := fetchedUpdate_spec (Option.mem_toList.mp hu)
        refine ⟨?_, hopened⟩
        rw [hsame]
        exact h.fetches f (List.mem_of_getElem? hf)
  | dispatch i env =>
    have hrest : KeysInForce libs bundles {s with updates := s.updates.eraseIdx i} :=
      h.congr rfl (fun _ hf => hf) fun _ hu => List.mem_of_mem_eraseIdx hu
    unfold distributionStep at hstep
    dsimp only at hstep
    split at hstep
    · cases hstep
      exact hrest
    · next u hu =>
      obtain ⟨node, hnode, rfl⟩ := Option.map_eq_some_iff.mp hstep
      refine hrest.afterTask hnode ?_
      rintro _ ⟨⟩
      exact hkey u hu
  | task task =>
    obtain ⟨node, hnode, rfl⟩ := Option.map_eq_some_iff.mp hstep
    exact h.afterTask hnode hkey

/-- Whatever is passed to `ApplyCentralConfig` is newer than the configuration in
force and has been signed with its key, in every run in which the key changes only
while no other fetch or update is under way. -/
theorem distributed_configs_fresh_and_signed {maxConfigSize : Nat} {n : NylonNode T}
    {events : List DistributionEvent} {s : Distributor T}
    (hrun : distributionRun libs bundles maxConfigSize n events = some s)
    (hkeys : Transitions.Along
      (fun s e => s.bind (distributionStep libs bundles maxConfigSize · e))
      (KeyChangesAlone libs) (some ⟨n, [], []⟩) events)
    {i : Nat} {u : Update} (hu : s.dispatched i = some u) :
    s.node.centralCfg.timestamp < u.config.timestamp ∧ ∃ dist, s.node.centralCfg.dist = some dist ∧
        unbundleConfig libs.toConfigLibraries bundles u.body dist.key = .ok u.config := by
  have hinv : ∀ d ∈ distributionRun libs bundles maxConfigSize n events,
      KeysInForce libs bundles d := by
    refine Transitions.run_invariant (fun d e
      (hd : ∀ s ∈ d, KeysInForce libs bundles s) (he : KeyChangesAlone libs d e) => ?_) ?_ hkeys
    · intro s' hs'
      obtain ⟨s, rfl, hstep⟩ := Option.bind_eq_some_iff.mp hs'
      exact (hd s rfl).step hstep he
    · rintro _ ⟨rfl⟩
      exact ⟨by simp, by simp⟩
  obtain ⟨hmem, hfresh⟩ := Option.filter_eq_some_iff.mp hu
  obtain ⟨hkey, hopened⟩ := (hinv s hrun).updates u (List.mem_of_getElem? hmem)
  obtain ⟨dist, hdist, hsame⟩ := Option.map_eq_some_iff.mp hkey
  refine ⟨of_decide_eq_true hfresh, dist, hdist, ?_⟩
  rw [hsame]
  exact hopened

end Keys

section Sample

/-- Repositories are files. -/
def fileLibraries : Libraries :=
  {plainLibraries with parseURL := fun _ => .ok ⟨"file", ""⟩}

/-- The router `a` with two repositories. -/
def withRepos (key : NyPublicKey) (timestamp : Int) : CentralCfg PrefixHealth :=
  {plainConfig timestamp [plainRouter "a" 1 []] [] [] with dist := some ⟨key, ["x", "y"]⟩}

/-- A signature repeats the key, and a configuration is its key and timestamp. -/
def plainBundles : BundleLibraries where
  decodeBase64 := .ok
  openAEAD _ _ cipherText := .ok cipherText
  verify key _ signature := signature.all fun b => b.toNat == key.toNat
  unmarshal
    | [key, timestamp] => .ok (withRepos (.ofNat 256 key.toNat) timestamp.toNat)
    | _ => .error "not a configuration"

/-- A bundle with the key it is signed with, the key it sets and its timestamp. -/
def plainBundle (signer key timestamp : UInt8) : Except String Bytes :=
  .ok (.replicate nonceSizeX 0 ++ .replicate signatureSize signer ++ [key, timestamp])

/-- Two goroutines find updates, the first of which sets this key. -/
def twoUpdates (key : UInt8) : List DistributionEvent :=
  [.check, .fetched 0 (plainBundle 1 key 5), .fetched 0 (plainBundle 1 1 10)]

def startWithRepos : Except Stop (NylonNode PrefixMap) :=
  bootstrap fileLibraries (idleEnv 0) (plainLocal "a") (withRepos 1 1)

theorem distributed_configs_same_key :
    ∃ (n : NylonNode PrefixMap) (s : Distributor PrefixMap) (u : Update), startWithRepos = .ok n ∧
      distributionRun fileLibraries plainBundles 1000 n
        (twoUpdates 1 ++ [.dispatch 0 (idleEnv 1)]) = some s ∧
      s.dispatched 0 = some u ∧ s.node.centralCfg.timestamp < u.config.timestamp ∧
      ∃ dist, s.node.centralCfg.dist = some dist ∧
        unbundleConfig fileLibraries.toConfigLibraries plainBundles u.body dist.key =
          .ok u.config := by
  have hrun : startWithRepos.toOption.any (fun n =>
      (distributionRun fileLibraries plainBundles 1000 n
        (twoUpdates 1 ++ [.dispatch 0 (idleEnv 1)])).any (fun s => (s.dispatched 0).isSome) &&
      (distributionRun fileLibraries plainBundles 1000 n (twoUpdates 1)).all fun s =>
        (s.dispatched 0).all fun u =>
          (acceptConfig fileLibraries s.node u.config).toOption.all fun next =>
            decide (next.dist.map (·.key) = keyInForce s.node)) = true := by
    decide +kernel
  obtain ⟨n, hn, hrun⟩ := exists_of_any hrun
  rw [Bool.and_eq_true] at hrun
  obtain ⟨s, hs, hsome⟩ := (Option.any_eq_true _ _).mp hrun.1
  obtain ⟨u, hu⟩ := Option.isSome_iff_exists.mp hsome
  have hkeys : Transitions.Along
      (fun s e => s.bind (distributionStep fileLibraries plainBundles 1000 · e))
      (KeyChangesAlone fileLibraries) (some ⟨n, [], []⟩)
      (twoUpdates 1 ++ [.dispatch 0 (idleEnv 1)]) := by
    refine ⟨fun _ _ => trivial, fun _ _ => trivial, fun _ _ => trivial, ?_, trivial⟩
    intro d hd u hu
    refine Or.inl fun next hnext => ?_
    have hkeeps := (Option.all_eq_true _ _).mp ((Option.all_eq_true _ _).mp hrun.2 d hd) u hu
    rw [hnext] at hkeeps
    exact of_decide_eq_true hkeeps
  exact ⟨n, s, u, hn, hs, hu, distributed_configs_fresh_and_signed hs hkeys hu⟩

/-- The first update replaces the key, and the second one is applied under the old
key. -/
theorem replaced_key_still_accepted :
    ∃ (n : NylonNode PrefixMap) (s : Distributor PrefixMap) (u : Update), startWithRepos = .ok n ∧
      distributionRun fileLibraries plainBundles 1000 n
        (twoUpdates 2 ++ [.dispatch 0 (idleEnv 1)]) = some s ∧
      s.dispatched 0 = some u ∧
      ¬ ∃ dist, s.node.centralCfg.dist = some dist ∧
        unbundleConfig fileLibraries.toConfigLibraries plainBundles u.body dist.key =
          .ok u.config := by
  have hrun : startWithRepos.toOption.any (fun n =>
      (distributionRun fileLibraries plainBundles 1000 n
        (twoUpdates 2 ++ [.dispatch 0 (idleEnv 1)])).any fun s =>
          (s.dispatched 0).any fun u => s.node.centralCfg.dist.all fun dist =>
            (unbundleConfig fileLibraries.toConfigLibraries plainBundles u.body
              dist.key).toOption.isNone) = true := by
    decide +kernel
  obtain ⟨n, hn, hrun⟩ := exists_of_any hrun
  obtain ⟨s, hs, hrun⟩ := (Option.any_eq_true _ _).mp hrun
  obtain ⟨u, hu, hdist⟩ := (Option.any_eq_true _ _).mp hrun
  refine ⟨n, s, u, hn, hs, hu, ?_⟩
  rintro ⟨dist, hinForce, hopened⟩
  have hnone := (Option.all_eq_true _ _).mp hdist dist hinForce
  rw [hopened] at hnone
  cases hnone

end Sample

end Nylon.Core
