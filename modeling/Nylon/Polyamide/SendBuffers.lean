import Nylon.Lib.Go
import Nylon.Lib.Grouping

/-!
Buffers of one batch are arranged by endpoint (`partitionBuffersByEndpoint` in
`polyamide/device/send.go`) and then sent, one call of the bind for each run of
equal endpoints (`SendBuffers` in `polyamide/device/peer.go`). The parallel slices
of buffers and endpoints are one list of pairs, a missing endpoint is `none`. What
the bind returns is a function of how many calls came before. Clearing the source of
an endpoint keeps its identity and is left out, and so are the counters.
-/

namespace Nylon.Polyamide

open Lib Lib.Grouping

variable {Buf Endpoint : Type}

def errNoEndpoints : String := "no known endpoints for peer"

/-- An error of sending: of the bind when it turns off offloading, with the error of
its second attempt, or any other. -/
inductive SendError where
  | gsoDisabled (retryErr : Option String)
  | other (msg : String)
  deriving DecidableEq, Repr

/-- A missing endpoint is replaced by the first known one. -/
def fillEndpoint (known : List Endpoint) (entry : Buf × Option Endpoint) :
    Except String (Buf × Option Endpoint) :=
  match entry.2, known with
  | some ep, _ => .ok (entry.1, some ep)
  | none, first :: _ => .ok (entry.1, some first)
  | none, [] => .error errNoEndpoints

structure SendCall (Buf Endpoint : Type) where
  bufs : List Buf
  ep : Endpoint
  deriving DecidableEq, Repr

structure SendResult (Buf Endpoint : Type) where
  calls : List (SendCall Buf Endpoint)
  anyError : Option SendError
  deriving DecidableEq, Repr

/-- Sends a batch, to the first endpoint of the peer if it has none of its own. There
is an early return if there is no such endpoint. -/
def sendBatch (endpoints : List Endpoint) (sendErr : Nat → Option SendError)
    (prevEp : Option Endpoint) (batch : List Buf) (r : SendResult Buf Endpoint) :
    Except (SendResult Buf Endpoint) (SendResult Buf Endpoint) :=
  match prevEp.or endpoints.head? with
  | none => .error {r with anyError := some (.other errNoEndpoints)}
  | some ep =>
    .ok ⟨r.calls ++ [⟨batch, ep⟩], (sendErr r.calls.length).or r.anyError⟩

variable [DecidableEq Endpoint]

/-- The rest of a group: buffers with the endpoint are taken and marked as visited. -/
def takeGroup (currentEp : Endpoint) :
    List (Buf × Option Endpoint) → List Buf × List (Buf × Option Endpoint)
  | [] => ([], [])
  | (buf, ep) :: rest =>
    let group := takeGroup currentEp rest
    if ep = some currentEp then (buf :: group.1, (buf, none) :: group.2)
    else (group.1, (buf, ep) :: group.2)

/-- The loop over the first `n` buffers; those that are marked are skipped. -/
def partitionLoop : Nat → List (Buf × Option Endpoint) → List (Buf × Endpoint)
  | 0, _ => []
  | _ + 1, [] => []
  | n + 1, (_, none) :: rest => partitionLoop n rest
  | n + 1, (buf, some currentEp) :: rest =>
    let group := takeGroup currentEp rest
    (buf, currentEp) :: group.1.map (fun buf => (buf, currentEp)) ++ partitionLoop n group.2

def partitionBuffersByEndpoint (known : List Endpoint)
    (entries : List (Buf × Option Endpoint)) : Except String (List (Buf × Endpoint)) := do
  let entries ← entries.mapM (fillEndpoint known)
  return partitionLoop entries.length entries

/-- The loop of `SendBuffers` with the batch that is not sent yet. -/
def sendLoop (endpoints : List Endpoint) (sendErr : Nat → Option SendError) :
    Option Endpoint → List Buf → SendResult Buf Endpoint → List (Buf × Option Endpoint) →
      Except (SendResult Buf Endpoint) (SendResult Buf Endpoint)
  | prevEp, batch, r, [] => sendBatch endpoints sendErr prevEp batch r
  | prevEp, batch, r, (buf, ep) :: rest =>
    if ep ≠ prevEp then do
      let r ← sendBatch endpoints sendErr prevEp batch r
      sendLoop endpoints sendErr ep [buf] r rest
    else sendLoop endpoints sendErr prevEp (batch ++ [buf]) r rest

def sendBuffers (isClosed : Bool) (endpoints : List Endpoint)
    (sendErr : Nat → Option SendError) (entries : List (Buf × Option Endpoint)) :
    Go (SendResult Buf Endpoint) :=
  if isClosed then return ⟨[], none⟩
  else match entries with
    | [] => .error .indexOutOfRange
    | (buf, ep) :: rest =>
      match sendLoop endpoints sendErr ep [buf] ⟨[], none⟩ rest with
      | .ok r => return r
      | .error r => return r

section Partition

/-- The entries that are not marked yet. -/
def pending (entries : List (Buf × Option Endpoint)) : List (Buf × Endpoint) :=
  entries.filterMap fun entry => entry.2.map fun ep => (entry.1, ep)

theorem takeGroup_eq (currentEp : Endpoint) (entries : List (Buf × Option Endpoint)) :
    (takeGroup currentEp entries).1 = membersOf currentEp (pending entries) ∧
      pending (takeGroup currentEp entries).2 =
        (pending entries).filter (fun entry => entry.2 ≠ currentEp) ∧
      (takeGroup currentEp entries).2.length = entries.length := by
  induction entries with
  | nil => exact ⟨rfl, rfl, rfl⟩
  | cons entry rest ih =>
    obtain ⟨htaken, hleft, hlen⟩ := ih
    obtain ⟨buf, _ | ep⟩ := entry
    · simp only [takeGroup, reduceCtorEq, if_false]
      exact ⟨htaken, hleft, congrArg (· + 1) hlen⟩
    · have hpending : pending ((buf, some ep) :: rest) = (buf, ep) :: pending rest := rfl
      rw [hpending, membersOf_cons]
      by_cases hep : ep = currentEp
      · simp only [takeGroup, hep, if_true, htaken, List.filter_cons, ne_eq, not_true_eq_false,
          decide_false, Bool.false_eq_true, if_false, true_and]
        exact ⟨hleft, congrArg (· + 1) hlen⟩
      · have hsome : some ep ≠ some currentEp := fun h => hep (Option.some.inj h)
        simp only [takeGroup, hsome, hep, if_false, htaken, List.filter_cons, ne_eq,
          not_false_eq_true, decide_true, if_true, true_and]
        exact ⟨congrArg ((buf, ep) :: ·) hleft, congrArg (· + 1) hlen⟩

/-- The loop arranges what is pending group by group. -/
theorem partitionLoop_grouping (n : Nat) (entries : List (Buf × Option Endpoint))
    (h : entries.length ≤ n) :
    ∃ groups, partitionLoop n entries = flatten groups ∧ IsGrouping (pending entries) groups := by
  induction n generalizing entries with
  | zero =>
    obtain rfl := List.length_eq_zero_iff.mp (Nat.le_zero.mp h)
    exact ⟨[], rfl, .nil⟩
  | succ n ih =>
    match entries with
    | [] => exact ⟨[], rfl, .nil⟩
    | (buf, none) :: rest => exact ih rest (Nat.le_of_succ_le_succ h)
    | (buf, some ep) :: rest =>
      obtain ⟨htaken, hleft, hlen⟩ := takeGroup_eq ep rest
      obtain ⟨groups, hgroups, hgrouping⟩ :=
        ih (takeGroup ep rest).2 (hlen.trans_le (Nat.le_of_succ_le_succ h))
      rw [hleft] at hgrouping
      refine ⟨_, ?_, hgrouping.cons buf⟩
      simp only [partitionLoop, hgroups, htaken, flatten_cons, List.map_cons]

variable (first : Endpoint) (others : List Endpoint)

omit [DecidableEq Endpoint] in
/-- With an endpoint known, the missing ones are filled in. -/
theorem mapM_fillEndpoint (entries : List (Buf × Option Endpoint)) :
    entries.mapM (fillEndpoint (first :: others)) =
      .ok (entries.map fun entry => (entry.1, some (entry.2.getD first))) := by
  induction entries with
  | nil => rfl
  | cons entry rest ih =>
    obtain ⟨buf, _ | ep⟩ := entry <;> rw [List.mapM_cons, ih] <;> rfl

omit [DecidableEq Endpoint] in
theorem pending_filled (entries : List (Buf × Option Endpoint)) :
    pending (entries.map fun entry => (entry.1, some (entry.2.getD first))) =
      entries.map fun entry => (entry.1, entry.2.getD first) := by
  unfold pending
  rw [List.filterMap_map]
  exact congrFun List.filterMap_eq_map entries

theorem partitionBuffers_grouping (entries : List (Buf × Option Endpoint)) :
    ∃ groups, partitionBuffersByEndpoint (first :: others) entries = .ok (flatten groups) ∧
      IsGrouping (entries.map fun entry => (entry.1, entry.2.getD first)) groups := by
  obtain ⟨groups, hgroups, hgrouping⟩ := partitionLoop_grouping _
    (entries.map fun entry => (entry.1, some (entry.2.getD first))) le_rfl
  rw [pending_filled] at hgrouping
  refine ⟨groups, ?_, hgrouping⟩
  rw [partitionBuffersByEndpoint, mapM_fillEndpoint]
  exact congrArg Except.ok hgroups

omit [DecidableEq Endpoint] in
/-- Filling in fails exactly if an endpoint is missing and none is known. -/
theorem mapM_fillEndpoint_cases (known : List Endpoint) (entries : List (Buf × Option Endpoint)) :
    (∃ filled, entries.mapM (fillEndpoint known) = .ok filled ∧
        (∀ entry ∈ entries, entry.2 = none → known ≠ []) ∧
        filled.length = entries.length ∧ ∀ entry ∈ filled, entry.2 ≠ none) ∨
      ((∃ err, entries.mapM (fillEndpoint known) = .error err) ∧
        ∃ entry ∈ entries, entry.2 = none ∧ known = []) := by
  induction entries with
  | nil => exact .inl ⟨[], rfl, by simp, rfl, by simp⟩
  | cons entry rest ih =>
    obtain ⟨buf, ep⟩ := entry
    rw [List.mapM_cons]
    by_cases hmissing : ep = none ∧ known = []
    · obtain ⟨rfl, rfl⟩ := hmissing
      exact .inr ⟨⟨_, rfl⟩, (buf, none), by simp, rfl, rfl⟩
    · have hfill : ∃ ep', fillEndpoint known (buf, ep) = .ok (buf, some ep') := by
        rcases ep with _ | ep
        · obtain ⟨first, others, rfl⟩ :=
            List.exists_cons_of_ne_nil fun hnil => hmissing ⟨rfl, hnil⟩
          exact ⟨first, rfl⟩
        · exact ⟨ep, rfl⟩
      obtain ⟨ep', hfill⟩ := hfill
      rw [hfill]
      rcases ih with ⟨filled, hok, hknown, hlen, hsome⟩ | ⟨⟨err, herr⟩, entry, hmem, hentry⟩
      · rw [hok]
        refine .inl ⟨(buf, some ep') :: filled, rfl, ?_, congrArg (· + 1) hlen, ?_⟩
        · rw [List.forall_mem_cons]
          exact ⟨fun hnone hnil => hmissing ⟨hnone, hnil⟩, hknown⟩
        · rw [List.forall_mem_cons]
          exact ⟨Option.some_ne_none _, hsome⟩
      · rw [herr]
        exact .inr ⟨⟨err, rfl⟩, entry, List.mem_cons_of_mem _ hmem, hentry⟩

/-- What is arranged is empty only if there was nothing to arrange. -/
theorem partitionBuffers_cases (known : List Endpoint) (entries : List (Buf × Option Endpoint)) :
    (∃ arranged, partitionBuffersByEndpoint known entries = .ok arranged ∧
        (∀ entry ∈ entries, entry.2 = none → known ≠ []) ∧
        (arranged = [] ↔ entries = [])) ∨
      ((∃ err, partitionBuffersByEndpoint known entries = .error err) ∧
        ∃ entry ∈ entries, entry.2 = none ∧ known = []) := by
  unfold partitionBuffersByEndpoint
  rcases mapM_fillEndpoint_cases known entries with
    ⟨filled, hok, hknown, hlen, hsome⟩ | ⟨⟨err, herr⟩, hmissing⟩
  · refine .inl ⟨partitionLoop filled.length filled, by rw [hok]; rfl, hknown, ?_⟩
    match filled with
    | [] => simpa [partitionLoop] using hlen.symm
    | (buf, none) :: rest => exact absurd rfl (hsome (buf, none) (by simp))
    | (buf, some ep) :: rest =>
      have hne : entries ≠ [] := by
        rintro rfl
        cases hlen
      simp [partitionLoop, hne]
  · exact .inr ⟨⟨err, by rw [herr]; rfl⟩, hmissing⟩

end Partition

section Send

variable (endpoints : List Endpoint) (sendErr : Nat → Option SendError)

/-- The entries of groups as `SendBuffers` takes them. -/
def explicit (entries : List (Buf × Endpoint)) : List (Buf × Option Endpoint) :=
  entries.map fun entry => (entry.1, some entry.2)

/-- Buffers with the endpoint of the batch are added to it. -/
theorem sendLoop_same (ep : Endpoint) (bufs : List Buf) (batch : List Buf)
    (r : SendResult Buf Endpoint) (rest : List (Buf × Option Endpoint)) :
    sendLoop endpoints sendErr (some ep) batch r
        (explicit (bufs.map fun buf => (buf, ep)) ++ rest) =
      sendLoop endpoints sendErr (some ep) (batch ++ bufs) r rest := by
  induction bufs generalizing batch with
  | nil => rw [List.append_nil]; rfl
  | cons buf bufs ih =>
    have hstep : sendLoop endpoints sendErr (some ep) batch r
        (explicit ((buf :: bufs).map fun buf => (buf, ep)) ++ rest) =
        sendLoop endpoints sendErr (some ep) (batch ++ [buf]) r
          (explicit (bufs.map fun buf => (buf, ep)) ++ rest) :=
      if_neg (not_not.mpr rfl)
    rw [hstep, ih, List.append_assoc, List.singleton_append]

/-- Every group after the batch is one more call, if neighbouring groups differ. -/
theorem sendLoop_groups (groups : List (Endpoint × List Buf)) (ep : Endpoint)
    (batch : List Buf) (r : SendResult Buf Endpoint)
    (hnodup : (ep :: groups.map Prod.fst).Nodup) (hne : ∀ group ∈ groups, group.2 ≠ []) :
    ∃ r', sendLoop endpoints sendErr (some ep) batch r (explicit (flatten groups)) = .ok r' ∧
      r'.calls = r.calls ++ ⟨batch, ep⟩ :: groups.map fun group => ⟨group.2, group.1⟩ := by
  induction groups generalizing ep batch r with
  | nil => exact ⟨_, rfl, rfl⟩
  | cons group groups ih =>
    obtain ⟨ep', bufs⟩ := group
    obtain ⟨buf, bufs, rfl⟩ := List.exists_cons_of_ne_nil (hne (ep', bufs) (by simp))
    have hdiff : some ep' ≠ some ep := by
      intro heq
      obtain rfl := Option.some.inj heq
      exact (List.nodup_cons.mp hnodup).1 (by simp)
    obtain ⟨r', hloop, hcalls⟩ := ih ep' (buf :: bufs)
      ⟨r.calls ++ [⟨batch, ep⟩], (sendErr r.calls.length).or r.anyError⟩
      (List.nodup_cons.mp hnodup).2 fun group hgroup => hne group (by simp [hgroup])
    refine ⟨r', ?_, ?_⟩
    · have hflat : explicit (flatten ((ep', buf :: bufs) :: groups)) =
          (buf, some ep') :: (explicit (bufs.map fun buf => (buf, ep')) ++
            explicit (flatten groups)) := by
        simp [explicit, flatten_cons]
      rw [hflat, sendLoop, if_pos hdiff]
      exact (sendLoop_same endpoints sendErr ep' bufs [buf] _ _).trans hloop
    · rw [hcalls]
      simp

/-- Groups of different endpoints are sent in one call each. -/
theorem sendBuffers_groups {groups : List (Endpoint × List Buf)}
    (hnodup : (groups.map Prod.fst).Nodup) (hne : ∀ group ∈ groups, group.2 ≠ [])
    (hsome : groups ≠ []) :
    ∃ r, sendBuffers false endpoints sendErr (explicit (flatten groups)) = .ok r ∧
      r.calls = groups.map fun group => ⟨group.2, group.1⟩ := by
  obtain ⟨⟨ep, bufs⟩, groups, rfl⟩ := List.exists_cons_of_ne_nil hsome
  obtain ⟨buf, bufs, rfl⟩ := List.exists_cons_of_ne_nil (hne (ep, bufs) (by simp))
  obtain ⟨r, hloop, hcalls⟩ := sendLoop_groups endpoints sendErr groups ep ([buf] ++ bufs)
    ⟨[], none⟩ hnodup fun group hgroup => hne group (by simp [hgroup])
  refine ⟨r, ?_, hcalls⟩
  have hflat : explicit (flatten ((ep, buf :: bufs) :: groups)) =
      (buf, some ep) :: (explicit (bufs.map fun buf => (buf, ep)) ++
        explicit (flatten groups)) := by
    simp [explicit, flatten_cons]
  rw [hflat]
  simp only [sendBuffers, Bool.false_eq_true, if_false]
  rw [sendLoop_same, hloop]
  rfl

/-- Sending nothing panics, unless the device is closed. -/
theorem sendBuffers_cases (isClosed : Bool) (entries : List (Buf × Option Endpoint)) :
    ((∃ r, sendBuffers isClosed endpoints sendErr entries = .ok r) ∧
        (entries = [] → isClosed = true)) ∨
      (sendBuffers isClosed endpoints sendErr entries = .error .indexOutOfRange ∧
        entries = [] ∧ isClosed = false) := by
  cases isClosed with
  | true => exact .inl ⟨⟨_, rfl⟩, fun _ => rfl⟩
  | false =>
    match entries with
    | [] => exact .inr ⟨rfl, rfl, rfl⟩
    | (buf, ep) :: rest =>
      refine .inl ⟨?_, by simp⟩
      simp only [sendBuffers, Bool.false_eq_true, if_false]
      cases sendLoop endpoints sendErr ep [buf] ⟨[], none⟩ rest with
      | ok r => exact ⟨r, rfl⟩
      | error r => exact ⟨r, rfl⟩

end Send

/-- A non-empty batch for a peer with a known endpoint: one call of the bind for each
endpoint, with all buffers of that endpoint in their order. What is known when the
buffers are sent, and whether sending fails, makes no difference. -/
theorem partition_send_once (first : Endpoint) (others endpoints : List Endpoint)
    (sendErr : Nat → Option SendError) (entry : Buf × Option Endpoint)
    (rest : List (Buf × Option Endpoint)) :
    ∃ arranged r, partitionBuffersByEndpoint (first :: others) (entry :: rest) = .ok arranged ∧
      sendBuffers false endpoints sendErr (explicit arranged) = .ok r ∧
      (r.calls.flatMap fun call => call.bufs.map fun buf => (buf, call.ep)).Perm
        ((entry :: rest).map fun entry => (entry.1, entry.2.getD first)) ∧
      (∀ call ∈ r.calls, call.bufs ≠ [] ∧ call.bufs = membersOf call.ep
        ((entry :: rest).map fun entry => (entry.1, entry.2.getD first))) ∧
      (r.calls.map SendCall.ep).Nodup := by
  obtain ⟨groups, hpartition, hgrouping⟩ := partitionBuffers_grouping first others (entry :: rest)
  have hsome : groups ≠ [] := by
    rintro rfl
    exact absurd hgrouping.perm.length_eq (by simp)
  obtain ⟨r, hsend, hcalls⟩ := sendBuffers_groups endpoints sendErr hgrouping.nodup
    (fun group hgroup => (hgrouping.members group hgroup).2) hsome
  refine ⟨_, r, hpartition, hsend, ?_, ?_, ?_⟩
  · rw [hcalls, List.flatMap_map]
    exact hgrouping.perm
  · intro call hcall
    rw [hcalls, List.mem_map] at hcall
    obtain ⟨group, hgroup, rfl⟩ := hcall
    obtain ⟨hmembers, hne⟩ := hgrouping.members group hgroup
    exact ⟨hne, hmembers⟩
  · rw [hcalls, List.map_map]
    exact hgrouping.nodup

example :
    (do
      let arranged ←
        (partitionBuffersByEndpoint [7, 8] [(1, none), (2, some 9), (3, some 7)]).toOption
      let r ← (sendBuffers false [] (fun _ => none) (explicit arranged)).toOption
      return r.calls) = some [⟨[1, 3], 7⟩, ⟨[2], 9⟩] := by
  decide

end Nylon.Polyamide
