import Nylon.Core.KeptConfig
import Nylon.Core.TaskSpec

/-!
What a rejected or repeated configuration leaves behind. An update that fails its
checks changes nothing. One that passes them and fails later, because the device
refuses a peer or an endpoint, has already replaced the neighbours, `PeerMap`, the
advertisements and the configuration with its timestamp, and nothing is undone:
it leaves no trace only where there was nothing to change. The configuration in
force is installed again like any other, since it is compared with a pointer.
-/

namespace Nylon.Core

open Lib Netip State Polyamide

variable {T : Type → Type} {libs : Libraries} {env : Env} {n : NylonNode T}
  {next : CentralCfg Health} {peers : List NodeId}

theorem LeavesNoTrace.refl (cfg : CentralCfg PrefixHealth) (n : NylonNode T) :
    LeavesNoTrace cfg n n :=
  ⟨rfl, rfl, fun _ _ => rfl, fun _ => rfl, fun _ => rfl, fun _ => Iff.rfl, fun h => h⟩

/-- Bindings and peers are not part of the trace. -/
theorem leavesNoTrace_syncing_iff [PrefixTable T] {cfg : CentralCfg PrefixHealth}
    {idMap : NodeIdMap} {m : NylonNode T} {desired : NodeId → Option NyPublicKey}
    (h : Syncing desired (bound libs env n next peers idMap) m) :
    LeavesNoTrace cfg n m ↔ LeavesNoTrace cfg n (reconciled libs env n next peers) := by
  rw [h.frame]
  constructor
  · intro ⟨h₁, h₂, h₃, h₄, h₅, h₆, h₇⟩
    exact ⟨h₁, h₂, h₃, h₄, h₅, h₆, h₇⟩
  · intro ⟨h₁, h₂, h₃, h₄, h₅, h₆, h₇⟩
    exact ⟨h₁, h₂, h₃, h₄, h₅, h₆, h₇⟩

/-- A rejected configuration leaves no trace exactly if it fails its checks or the
node already is as it asks for. -/
theorem rejected_leaves_no_trace_iff [PrefixTable T] {cfg : CentralCfg PrefixHealth} {err : String}
    (hrejected : (applyCentralConfig libs env cfg n).result = .error (.rejected err)) :
    LeavesNoTrace cfg n (applyCentralConfig libs env cfg n).state ↔
      ∀ next, acceptConfig libs n cfg = .ok next → Conforms libs env n next := by
  have hmeets : Proc.Meets (· = n) (applyCentralConfig libs env cfg) (fun _ => True)
      (fun _ _ => True) (fun e m => e = .rejected err → (LeavesNoTrace cfg n m ↔
        ∀ next, acceptConfig libs n cfg = .ok next → Conforms libs env n next)) := by
    refine applyCentralConfig_meets (fun e he _ => ?_) fun next hnext => ?_
    · refine iff_of_true (LeavesNoTrace.refl cfg n) fun next hnext => ?_
      rw [hnext] at he
      cases he
    · have hchecked := acceptConfig_ok hnext
      refine (installConfig_meets hchecked).weaken (fun _ h => h) (fun _ _ => trivial)
        (fun _ _ _ => trivial) ?_
      rintro _ m hstopped rfl
      obtain ⟨peers, idMap, hpeers, hsync, _⟩ := hstopped
      rw [leavesNoTrace_syncing_iff hsync, leavesNoTrace_reconciled_iff hchecked hpeers, hnext]
      exact ⟨fun h _ hok => Except.ok.inj hok ▸ h, fun h => h next rfl⟩
  have hend := (hmeets n rfl).2
  rw [hrejected] at hend
  exact hend rfl

/-- Two routers with the given graph. -/
def twoRouters (timestamp : Int) (graph : List String) : CentralCfg PrefixHealth :=
  plainConfig timestamp [plainRouter "a" 1 [], plainRouter "b" 2 []] [] graph

/-- A graph with an unknown node does not pass the checks. -/
theorem rejected_leaves_no_trace_bad_graph :
    ∃ n : NylonNode PrefixMap, startPlain (twoRouters 1 ["a, b"]) = .ok n ∧
      LeavesNoTrace (twoRouters 2 ["a, x"]) n
        (applyCentralConfig plainLibraries (idleEnv 1) (twoRouters 2 ["a, x"]) n).state := by
  have hrun : (startPlain (twoRouters 1 ["a, b"])).toOption.any (fun n =>
      decide ((applyCentralConfig plainLibraries (idleEnv 1) (twoRouters 2 ["a, x"]) n).result =
        .error (.rejected "invalid graph: x is not a valid node/group")) &&
      (acceptConfig plainLibraries n (twoRouters 2 ["a, x"])).toOption.isNone) = true := by
    decide +kernel
  obtain ⟨n, hn, hrun⟩ := exists_of_any hrun
  rw [Bool.and_eq_true] at hrun
  obtain ⟨hresult, hrejected⟩ := hrun
  refine ⟨n, hn, (rejected_leaves_no_trace_iff (of_decide_eq_true hresult)).mpr
    fun next hnext => ?_⟩
  rw [hnext] at hrejected
  cases hrejected

/-- The device has been closed by an error of the TUN, and refuses the peers of an
update whose timestamp is in force by then. -/
theorem refused_peer_leaves_timestamp :
    ∃ n m : NylonNode PrefixMap, startPlain (twoRouters 1 ["a, b"]) = .ok n ∧
      nodeRun plainLibraries n [.closeDevice] = some m ∧
      (applyCentralConfig plainLibraries (idleEnv 1) (twoRouters 2 ["a, b"]) m).result =
        .error (.rejected "device closed") ∧
      ¬ LeavesNoTrace (twoRouters 2 ["a, b"]) m
        (applyCentralConfig plainLibraries (idleEnv 1) (twoRouters 2 ["a, b"]) m).state := by
  have hrun : (startPlain (twoRouters 1 ["a, b"])).toOption.any (fun n =>
      (nodeRun plainLibraries n [.closeDevice]).any fun m =>
        let out := applyCentralConfig plainLibraries (idleEnv 1) (twoRouters 2 ["a, b"]) m
        decide (out.result = .error (.rejected "device closed")) &&
        decide (m.centralCfg.timestamp = 1) &&
        decide (out.state.centralCfg.timestamp = 2)) = true := by
    decide +kernel
  obtain ⟨n, hn, hrun⟩ := exists_of_any hrun
  obtain ⟨m, hm, hout⟩ := (Option.any_eq_true _ _).mp hrun
  simp only [Bool.and_eq_true, decide_eq_true_eq] at hout
  obtain ⟨⟨hresult, hbefore⟩, hafter⟩ := hout
  refine ⟨n, m, hn, hm, hresult, fun h => ?_⟩
  have hoffered := h.offered (by rw [hbefore]; decide)
  rw [hafter] at hoffered
  exact absurd hoffered (by decide)

section Reapply

/-- The configuration says what the one in force says, after it has been cloned
and expanded. -/
def IsInForce (libs : Libraries) (n : NylonNode T) (cfg : CentralCfg PrefixHealth) : Prop :=
  ((libs.clone cfg).toOption.bind expandCentralConfig) = some n.centralCfg.settings

theorem apply_is_never_noop [PrefixTable T] (libs : Libraries) (env : Env)
    (cfg : CentralCfg PrefixHealth) (n : NylonNode T) :
    (applyCentralConfig libs env cfg n).result ≠ .ok .noop := by
  intro hnoop
  cases (applied_of_ok hnoop).1

/-- A router with the prefix 10.0.0.0/24. -/
def oneRouter : CentralCfg PrefixHealth :=
  plainConfig 1 [plainRouter "a" 1 [.static (some ⟨.v4 0x0A000000, 24, Prefix.bits24_le⟩) 0]] [] []

/-- Routes are computed again, here for the first time. -/
theorem reapplied_config_selects_routes : ∃ n : NylonNode PrefixMap, startPlain oneRouter = .ok n ∧
      IsInForce plainLibraries n oneRouter ∧
      (applyCentralConfig plainLibraries (idleEnv 1) oneRouter n).result = .ok .applied ∧
      n.routerState.routes = ∅ ∧
      (applyCentralConfig plainLibraries (idleEnv 1) oneRouter n).state.routerState.routes ≠ ∅ := by
  have hrun : (startPlain oneRouter).toOption.any (fun n =>
      let out := applyCentralConfig plainLibraries (idleEnv 1) oneRouter n
      decide (((plainLibraries.clone oneRouter).toOption.bind expandCentralConfig) =
        some n.centralCfg.settings) &&
      decide (out.result = .ok .applied) &&
      n.routerState.routes.entries.isEmpty &&
      (out.state.routerState.routes.lookup ⟨.v4 0x0A000000, 24, by decide⟩).isSome) = true := by
    decide +kernel
  obtain ⟨n, hn, hout⟩ := exists_of_any hrun
  simp only [Bool.and_eq_true, decide_eq_true_eq] at hout
  obtain ⟨⟨⟨hsame, hresult⟩, hbefore⟩, hafter⟩ := hout
  refine ⟨n, hn, hsame, hresult, AList.ext (List.isEmpty_iff.mp hbefore), fun hempty => ?_⟩
  rw [hempty] at hafter
  cases hafter

end Reapply

end Nylon.Core
