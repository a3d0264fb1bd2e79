import Nylon.Polyamide.TrafficControl

/-!
How a packet goes through a chain of filters: rules to follow it from filter to
filter, the invariant rule for a chain that does not panic, and what leaves a
batch of one packet.
-/

namespace Nylon.Polyamide

open Lib

variable {Peer Endpoint Call : Type} {filter : TCFilter Peer Endpoint Call}
  {rest : List (TCFilter Peer Endpoint Call)} {elem next : TCElement Peer Endpoint}

@[simp] theorem FilterResult.of_action (action : TCAction) (elem : TCElement Peer Endpoint) :
    (FilterResult.of action elem : FilterResult Peer Endpoint Call).action = action :=
  rfl

@[simp] theorem FilterResult.of_elem (action : TCAction) (elem : TCElement Peer Endpoint) :
    (FilterResult.of action elem : FilterResult Peer Endpoint Call).elem = elem :=
  rfl

theorem runFilters_pass (h : filter elem = .ok (.of .pass next)) :
    runFilters (filter :: rest) elem = runFilters rest next := by
  rw [runFilters, h, Go.ok_bind]
  simp only [FilterResult.of, Option.isSome_none, Bool.false_eq_true, if_false,
    ne_eq, not_true_eq_false, List.nil_append]
  cases runFilters rest next <;> rfl

theorem runFilters_decide {result : FilterResult Peer Endpoint Call}
    (h : filter elem = .ok result) (herr : result.err = none)
    (haction : result.action ≠ .pass) : runFilters (filter :: rest) elem = .ok result := by
  rw [runFilters, h, Go.ok_bind, herr, if_neg (by simp), if_pos haction]
  rfl

/-- The filter returns, and does not let the element pass. -/
def Decides (filter : TCFilter Peer Endpoint Call) (elem : TCElement Peer Endpoint) :
    Prop :=
  ∃ result, filter elem = .ok result ∧ result.action ≠ .pass

theorem Decides.runFilters_ok (h : Decides filter elem) :
    ∃ result, runFilters (filter :: rest) elem = .ok result := by
  obtain ⟨result, hresult, haction⟩ := h
  rw [runFilters, hresult, Go.ok_bind]
  split_ifs <;> exact ⟨_, rfl⟩

theorem runFilters_panic {p : Panic} (h : filter elem = .error p) :
    runFilters (filter :: rest) elem = .error p := by
  rw [runFilters, h]
  rfl

/-- A filter that returns on the elements with the invariant, and keeps the
invariant when it lets the element pass. -/
def Keeps (inv : TCElement Peer Endpoint → Prop) (filter : TCFilter Peer Endpoint Call) :
    Prop :=
  ∀ elem, inv elem → ∃ result, filter elem = .ok result ∧
    (result.err = none → result.action = .pass → inv result.elem)

theorem runFilters_ok {inv : TCElement Peer Endpoint → Prop}
    {filters : List (TCFilter Peer Endpoint Call)}
    (hkeeps : ∀ filter ∈ filters, Keeps inv filter) (helem : inv elem) :
    ∃ result, runFilters filters elem = .ok result := by
  induction filters generalizing elem with
  | nil => exact ⟨_, rfl⟩
  | cons filter rest ih =>
    rw [List.forall_mem_cons] at hkeeps
    obtain ⟨result, hresult, hpass⟩ := hkeeps.1 elem helem
    rw [runFilters, hresult, Go.ok_bind]
    split_ifs with herr haction
    · exact ⟨_, rfl⟩
    · exact ⟨_, rfl⟩
    · obtain ⟨next, hnext⟩ := ih hkeeps.2
        (hpass (Option.not_isSome_iff_eq_none.mp herr) (not_not.mp haction))
      rw [hnext]
      exact ⟨_, rfl⟩

/-- A filter that decides, or lets the element pass as it is. -/
theorem Keeps.of_cases {inv : TCElement Peer Endpoint → Prop}
    (h : ∀ elem, inv elem → ∃ result, filter elem = .ok result ∧
      (result.action ≠ .pass ∨ result.elem = elem)) : Keeps inv filter := by
  intro elem helem
  obtain ⟨result, hresult, hcases⟩ := h elem helem
  refine ⟨result, hresult, fun _ hpass => ?_⟩
  rw [hcases.resolve_left (not_not.mpr hpass)]
  exact helem

theorem tcfAllowedip_of_toPeer (allowedips : AllowedIPs Peer) (h : elem.toPeer.isSome) :
    (tcfAllowedip allowedips : TCFilter Peer Endpoint Call) elem = .ok (.of .forward elem) := by
  rw [tcfAllowedip, if_pos h]
  rfl

/-- The table of allowed addresses has no answer for a packet that is not IP. -/
theorem tcfAllowedip_panic (allowedips : AllowedIPs Peer) (htoPeer : elem.toPeer = none)
    (h : elem.packet.HasHeader) (hip : ¬ elem.packet.IsIP) :
    (tcfAllowedip allowedips : TCFilter Peer Endpoint Call) elem =
      .error (.call "looking up unknown address type") := by
  have hbytes : elem.packet.getDstBytes = .ok [] := by
    unfold Packet.getDstBytes
    rw [h.getIPVersion, Go.ok_bind, if_neg (not_or.mp hip).1, if_neg (not_or.mp hip).2]
    rfl
  rw [tcfAllowedip, htoPeer, hbytes]
  rfl

theorem tcfAllowedip_keeps (allowedips : AllowedIPs Peer) :
    Keeps (fun elem : TCElement Peer Endpoint =>
        elem.packet.HasHeader ∧ elem.packet.IsIP)
      (tcfAllowedip allowedips : TCFilter Peer Endpoint Call) := by
  refine Keeps.of_cases fun elem helem => ?_
  obtain ⟨ip, hip, -⟩ := helem.1.getDstBytes
  obtain ⟨h4, h6⟩ := helem.1.length_getDstBytes hip
  have hlookup : ∃ peer, allowedips.lookup ip = .ok peer := by
    unfold AllowedIPs.lookup
    rcases helem.2 with hver | hver
    · exact ⟨_, by rw [if_neg (by rw [h4 hver]; decide), if_pos (h4 hver)]⟩
    · exact ⟨_, if_pos (h6 hver)⟩
  obtain ⟨peer, hpeer⟩ := hlookup
  unfold tcfAllowedip
  rw [hip, Go.ok_bind, hpeer, Go.ok_bind]
  split_ifs
  · exact ⟨_, rfl, .inr rfl⟩
  · cases peer with
    | none => exact ⟨_, rfl, .inr rfl⟩
    | some peer => exact ⟨_, rfl, .inl (by simp)⟩

variable {dev : Device Peer Endpoint Call}

theorem foldl_installFilter (dev : Device Peer Endpoint Call)
    (filters : List (TCFilter Peer Endpoint Call)) :
    filters.foldl Device.installFilter dev =
      {dev with tcFilters := dev.tcFilters ++ filters} := by
  induction filters generalizing dev with
  | nil => simp
  | cons filter rest ih => simp [ih, Device.installFilter]

theorem filterElement_of_not_accepted (dev : Device Peer Endpoint Call) (hlen : 0 < elem.packet.len)
    (h : ¬ elem.packet.Accepted) :
    ∃ next, dev.filterElement elem = .ok (.of .drop next) := by
  obtain ⟨parsed, packet, hparse, hiff, -⟩ := Packet.parse_validate hlen
  refine ⟨{elem with packet := packet}, ?_⟩
  simp only [Device.filterElement, hparse, Go.ok_bind]
  cases parsed with
  | false => rfl
  | true =>
    have hvalidate : packet.validate = .ok false := by
      rw [Packet.validate_eq] at hiff ⊢
      simp_all
    rw [hvalidate]
    rfl

theorem filterElement_of_accepted (hlen : 0 < elem.packet.len) (h : elem.packet.Accepted) :
    dev.filterElement elem = (do
      let result ← runFilters dev.tcFilters.reverse
        {elem with packet := elem.packet.trimmed}
      return if result.action = .pass then {result with action := .drop} else result) := by
  obtain ⟨parsed, packet, hparse, hiff, htrimmed⟩ := Packet.parse_validate hlen
  obtain ⟨rfl, hvalidate⟩ := hiff.mpr h
  obtain rfl := htrimmed h
  simp only [Device.filterElement, hparse, Go.ok_bind, hvalidate]
  rfl

/-- A batch returns exactly if the filters return for each of its elements. -/
theorem tcBatch_ok_iff [DecidableEq Peer] (batch : List (TCElement Peer Endpoint))
    (tcs : TCState Peer Endpoint) :
    (∃ r, dev.tcBatch batch tcs = .ok r) ↔ ∀ elem ∈ batch, ∃ r, dev.filterElement elem = .ok r := by
  have hcollect : ∀ acc elem, (∃ r, dev.collect acc elem = .ok r) ↔
      ∃ r, dev.filterElement elem = .ok r :=
    fun acc elem => Go.bind_pure_ok_iff _ _
  rw [← Go.foldlM_ok_iff hcollect (tcs, []) batch]
  exact Go.bind_pure_ok_iff _ _

section Single

variable [DecidableEq Peer] {result : FilterResult Peer Endpoint Call} {peer : Peer}

/-- Everything that leaves the batch is one element for the peer. -/
def Outcome.StagedOnly (outcome : Outcome Peer Endpoint Call) (peer : Peer)
    (out : OutboundElement Endpoint) : Prop :=
  outcome.tunWrite = none ∧ ∀ q, outcome.staged q = if q = peer then [out] else []

/-- What leaves a batch of one element with this result. -/
def Device.outcomeOf (dev : Device Peer Endpoint Call)
    (result : FilterResult Peer Endpoint Call) : Outcome Peer Endpoint Call :=
  ⟨result.calls, dev.bounce (TCState.new.add result).bouncePkts,
    dev.stage (TCState.new.add result).byPeer⟩

theorem tcBatch_singleton (h : dev.filterElement elem = .ok result) :
    dev.tcBatch [elem] .new = .ok (.new, dev.outcomeOf result) := by
  unfold Device.tcBatch Device.collect
  rw [List.foldlM_cons, h]
  rfl

/-- A forwarded element is the only one of its peer. -/
theorem byPeer_add (result : FilterResult Peer Endpoint Call) (q : Peer) :
    (TCState.new.add result).byPeer q =
      if result.action = .forward ∧ result.elem.toPeer = some q then [result.elem] else [] := by
  unfold TCState.add TCState.byPeer
  split
  · next haction => simp [TCState.new, haction]
  · next peer haction hpeer =>
      rw [haction, hpeer]
      cases result.elem.priority <;>
        simp [TCState.new, Function.update_apply, eq_comm (a := peer)]
  · next hbounce hforward =>
      rw [if_neg fun h => hforward q h.1 h.2]
      rfl

/-- One element is staged for a running peer exactly if the filters forward it
there. -/
theorem stagedOnly_iff (hrunning : dev.isRunning peer = true) (out : OutboundElement Endpoint) :
    (dev.outcomeOf result).StagedOnly peer out ↔
      result.action = .forward ∧ result.elem.toPeer = some peer ∧
        (⟨result.elem.toEp, result.elem.packet.data⟩ : OutboundElement Endpoint) = out := by
  have hstage : ∀ q, (dev.outcomeOf result).staged q =
      if dev.isRunning q = true ∧ result.action = .forward ∧ result.elem.toPeer = some q
      then [⟨result.elem.toEp, result.elem.packet.data⟩] else [] := by
    intro q
    simp only [Device.outcomeOf, Device.stage, byPeer_add]
    split_ifs <;> simp_all
  constructor
  · rintro ⟨-, hstaged⟩
    have hpeer := (hstage peer).symm.trans (hstaged peer)
    rw [if_pos rfl] at hpeer
    split_ifs at hpeer with hforward
    exact ⟨hforward.2.1, hforward.2.2, List.singleton_inj.mp hpeer⟩
  · rintro ⟨haction, htoPeer, rfl⟩
    refine ⟨?_, fun q => ?_⟩
    · simp [Device.outcomeOf, TCState.add, haction, htoPeer, Device.bounce, TCState.new]
    · rw [hstage]
      refine if_congr ?_ rfl rfl
      rw [htoPeer, Option.some_inj]
      exact ⟨fun h => h.2.2.symm, fun h => ⟨h ▸ hrunning, haction, h.symm⟩⟩

end Single

end Nylon.Polyamide
