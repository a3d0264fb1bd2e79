import Nylon.Core.NeighIO
import Nylon.Core.SeqnoRequests

/-!
`flushIO` (`core/router.go`), for all neighbours. The maps of queues may be walked in
any order.
-/

namespace Nylon.Core

open State Netip Lib

variable {D : Type} [TTLCache D Source UInt16]

section Model

variable (tr : Transport) (safeMTU : Nat)

/-- The neighbours are visited in the order of the slice. `GetNeighIO` makes the queues
that are not there. -/
def flushIO (fuel : Nat) : (orders : Nat → Nat → PassOrder) → List Neighbour → IOTable D →
    Option (Flushed (NodeId × List Queued) (IOTable D))
  | _, [], ios => some ⟨[], ios, false⟩
  | orders, n :: rest, ios =>
    let ios := ios.modify n.id fun io => io
    if n.active then
      (flushPasses tr safeMTU fuel (orders 0) (ios.getNeighIO n.id)).bind fun out =>
        let sent := out.sent.map fun bundle => (n.id, bundle)
        let ios := ios.insert n.id out.left
        if out.failed then some ⟨sent, ios, true⟩
        else Option.map (fun later => {later with sent := sent ++ later.sent}) <|
          flushIO fuel (fun k => orders (k + 1)) rest ios
    else flushIO fuel (fun k => orders (k + 1)) rest ios

end Model

section AllNeighbours

variable {tr : Transport} {safeMTU : Nat} {n : Neighbour} {rest : List Neighbour} {id : NodeId}

/-- The neighbours that are sent to. -/
def Sendable (neighbours : List Neighbour) (id : NodeId) : Prop :=
  ∃ n ∈ neighbours, n.id = id ∧ n.active = true

theorem sendable_cons :
    Sendable (n :: rest) id ↔ (n.id = id ∧ n.active = true) ∨ Sendable rest id := by
  unfold Sendable
  simp

def bundlesTo (id : NodeId) (sent : List (NodeId × List Queued)) : List (List Queued) :=
  sent.filterMap fun s => if s.1 = id then some s.2 else none

theorem bundlesTo_append (id : NodeId) (sent sent' : List (NodeId × List Queued)) :
    bundlesTo id (sent ++ sent') = bundlesTo id sent ++ bundlesTo id sent' :=
  List.filterMap_append

theorem bundlesTo_map (id id' : NodeId) (bundles : List (List Queued)) :
    bundlesTo id (bundles.map fun bundle => (id', bundle)) = if id' = id then bundles else [] := by
  unfold bundlesTo
  rw [List.filterMap_map]
  split
  · next heq => simp [heq]
  · next hne => simp [hne]

theorem getNeighIO_insert (ios : IOTable D) (id id' : NodeId) (io : IOPending D) :
    IOTable.getNeighIO (ios.insert id io) id' = if id' = id then io else ios.getNeighIO id' := by
  unfold IOTable.getNeighIO
  rw [Table.lookup_insert_eq]
  split <;> rfl

theorem getNeighIO_made (ios : IOTable D) (id id' : NodeId) :
    IOTable.getNeighIO (ios.modify id fun io => io) id' = ios.getNeighIO id' := by
  unfold IOTable.modify
  rw [getNeighIO_insert]
  split
  · next heq => rw [heq]
  · rfl

/-- What a flush does for one node: everything that waits for a neighbour with an active
endpoint is handed over, and nothing changes for other nodes. -/
structure FlushedFor (neighbours : List Neighbour) (ios : IOTable D)
    (out : Flushed (NodeId × List Queued) (IOTable D)) (id : NodeId) : Prop where
  bundles : Sendable neighbours id →
    (bundlesTo id out.sent).flatten.Perm (ios.getNeighIO id).queued
  drained : Sendable neighbours id → (out.left.getNeighIO id).queued = []
  silent : ¬ Sendable neighbours id → bundlesTo id out.sent = []
  unchanged : ¬ Sendable neighbours id → out.left.getNeighIO id = ios.getNeighIO id

/-- Nothing is sent to the first neighbour. -/
theorem FlushedFor.skip {ios : IOTable D} {out : Flushed (NodeId × List Queued) (IOTable D)}
    (hactive : n.active = false)
    (h : FlushedFor rest (ios.modify n.id fun io => io) out id) :
    FlushedFor (n :: rest) ios out id := by
  have hsendable : Sendable (n :: rest) id ↔ Sendable rest id := by
    simp [sendable_cons, hactive]
  obtain ⟨hbundles, hdrained, hsilent, hunchanged⟩ := h
  rw [getNeighIO_made] at hbundles hunchanged
  constructor
  case bundles => rwa [hsendable]
  case drained => rwa [hsendable]
  case silent => rwa [hsendable]
  case unchanged => rwa [hsendable]

/-- The first neighbour is flushed, and then the others. Should it be listed again, its
queues are empty then. -/
theorem FlushedFor.first {ios : IOTable D}
    {out : Flushed (List Queued) (IOPending D)} {later : Flushed (NodeId × List Queued) (IOTable D)}
    (hactive : n.active = true)
    (hsent : out.sent.flatten.Perm (ios.getNeighIO n.id).queued)
    (hleft : out.left.queued = [])
    (h : FlushedFor rest
      (AList.insert n.id out.left (ios.modify n.id fun io => io)) later id) :
    FlushedFor (n :: rest) ios
      {later with sent := out.sent.map (fun bundle => (n.id, bundle)) ++ later.sent} id := by
  obtain ⟨hbundles, hdrained, hsilent, hunchanged⟩ := h
  rw [getNeighIO_insert, getNeighIO_made] at hbundles hunchanged
  by_cases hid : n.id = id
  · subst hid
    rw [if_pos rfl] at hbundles hunchanged
    have hnow : Sendable (n :: rest) n.id := sendable_cons.mpr (Or.inl ⟨rfl, hactive⟩)
    refine ⟨fun _ => ?_, fun _ => ?_, fun hnot => absurd hnow hnot, fun hnot => absurd hnow hnot⟩
    · rw [bundlesTo_append, bundlesTo_map, if_pos rfl, List.flatten_append]
      by_cases hagain : Sendable rest n.id
      · have hnothing := hbundles hagain
        rw [hleft] at hnothing
        rwa [List.perm_nil.mp hnothing, List.append_nil]
      · rwa [hsilent hagain, List.flatten_nil, List.append_nil]
    · by_cases hagain : Sendable rest n.id
      · exact hdrained hagain
      · change (later.left.getNeighIO n.id).queued = []
        rw [hunchanged hagain, hleft]
  · have hsendable : Sendable (n :: rest) id ↔ Sendable rest id := by
      simp [sendable_cons, hid]
    have hto : bundlesTo id (out.sent.map (fun bundle => (n.id, bundle)) ++ later.sent) =
        bundlesTo id later.sent := by
      rw [bundlesTo_append, bundlesTo_map, if_neg hid, List.nil_append]
    rw [if_neg (Ne.symm hid)] at hbundles hunchanged
    constructor
    case bundles => rwa [hsendable, hto]
    case drained => rwa [hsendable]
    case silent => rwa [hsendable, hto]
    case unchanged => rwa [hsendable]

theorem flushIO_spec (hsend : ∀ bundle, tr.send bundle = true) {fuel : Nat}
    (orders : Nat → Nat → PassOrder) (neighbours : List Neighbour) (ios : IOTable D)
    (hfuel : ∀ n ∈ neighbours, (ios.getNeighIO n.id).queued.length < fuel) :
    ∃ out, flushIO tr safeMTU fuel orders neighbours ios = some out ∧ out.failed = false ∧
      (∀ s ∈ out.sent, s.2 ≠ []) ∧ ∀ id, FlushedFor neighbours ios out id := by
  induction neighbours generalizing orders ios with
  | nil =>
    refine ⟨_, rfl, rfl, by simp, ?_⟩
    intro id
    constructor <;> simp [Sendable, bundlesTo]
  | cons n rest ih =>
    have hfirst := hfuel n (by simp)
    have hothers : ∀ m ∈ rest, (ios.getNeighIO m.id).queued.length < fuel :=
      fun m hm => hfuel m (by simp [hm])
    unfold flushIO
    cases hactive : n.active with
    | false =>
      obtain ⟨out, hout, hok, hnonempty, hflushed⟩ :=
        ih (fun k => orders (k + 1)) (ios.modify n.id fun io => io)
          (by simpa only [getNeighIO_made] using hothers)
      exact ⟨out, by simpa using hout, hok, hnonempty, fun id => (hflushed id).skip hactive⟩
    | true =>
      rw [← getNeighIO_made ios n.id] at hfirst
      obtain ⟨out, hout, hsent, -, hbundles, hdone, hfailed⟩ :=
        flushPasses_spec tr safeMTU (orders 0) hfirst
      have hok : out.failed = false := by
        by_contra hnot
        obtain ⟨bundle, hbundle⟩ := hfailed (Bool.eq_true_of_not_eq_false hnot)
        rw [hsend] at hbundle
        cases hbundle
      have hleft := hdone hok
      rw [hleft, List.append_nil, getNeighIO_made] at hsent
      have hroom : ∀ m ∈ rest, (IOTable.getNeighIO
          (AList.insert n.id out.left (ios.modify n.id fun io => io)) m.id).queued.length <
          fuel := by
        intro m hm
        rw [getNeighIO_insert, getNeighIO_made]
        split
        · rw [hleft, List.length_nil]
          exact Nat.zero_lt_of_lt hfirst
        · exact hothers m hm
      obtain ⟨later, hlater, hlaterOk, hlaterNonempty, hflushed⟩ :=
        ih (fun k => orders (k + 1)) _ hroom
      refine ⟨{later with sent := out.sent.map (fun bundle => (n.id, bundle)) ++ later.sent},
        ?_, hlaterOk, ?_, fun id => (hflushed id).first hactive hsent hleft⟩
      · simp [hout, hok, hlater]
      · intro s hs
        rcases List.mem_append.mp hs with hs | hs
        · obtain ⟨bundle, hbundle, rfl⟩ := List.mem_map.mp hs
          exact hbundles bundle hbundle
        · exact hlaterNonempty s hs

theorem countP_mem_of_nodup_flatten {α : Type} [DecidableEq α] {lists : List (List α)} {a : α}
    (hnodup : lists.flatten.Nodup) (ha : a ∈ lists.flatten) :
    lists.countP (fun list => a ∈ list) = 1 := by
  induction lists with
  | nil => cases ha
  | cons list rest ih =>
    rw [List.flatten_cons] at hnodup ha
    obtain ⟨_, hrest, hdisjoint⟩ := List.nodup_append'.mp hnodup
    by_cases hlist : a ∈ list
    · have hnone : rest.countP (fun list => a ∈ list) = 0 := by
        rw [List.countP_eq_zero]
        intro other hother hmem
        exact hdisjoint hlist
          (List.mem_flatten.mpr ⟨other, hother, of_decide_eq_true hmem⟩)
      simp [hlist, hnone]
    · rcases List.mem_append.mp ha with h | h
      · exact absurd h hlist
      · simp [hlist, ih hrest h]

/-- If every bundle can be sent, the flush ends, whatever the orders in which the maps
are walked. For a neighbour with an active endpoint every message that waited is in one
of its bundles, nothing else is, and nothing waits afterwards. Nothing changes for other
nodes, and no bundle is empty. -/
theorem flush_delivers_each_once (tr : Transport) (safeMTU : Nat)
    (orders : Nat → Nat → PassOrder) (neighbours : List Neighbour) (ios : IOTable D)
    (hsend : ∀ bundle, tr.send bundle = true) :
    ∃ enough, ∀ fuel, enough ≤ fuel →
      ∃ out, flushIO tr safeMTU fuel orders neighbours ios = some out ∧ out.failed = false ∧
        (∀ s ∈ out.sent, s.2 ≠ []) ∧
        (∀ id, Sendable neighbours id →
          (∀ q ∈ (ios.getNeighIO id).queued,
            (bundlesTo id out.sent).countP (fun bundle => q ∈ bundle) = 1) ∧
          (bundlesTo id out.sent).flatten.Perm (ios.getNeighIO id).queued ∧
          (out.left.getNeighIO id).Drained) ∧
        ∀ id, ¬ Sendable neighbours id →
          bundlesTo id out.sent = [] ∧ out.left.getNeighIO id = ios.getNeighIO id := by
  refine ⟨(neighbours.map fun n => (ios.getNeighIO n.id).queued.length).sum + 1, ?_⟩
  intro fuel hfuel
  have hroom : ∀ n ∈ neighbours, (ios.getNeighIO n.id).queued.length < fuel := by
    intro n hn
    have hle : (ios.getNeighIO n.id).queued.length ≤
        (neighbours.map fun n => (ios.getNeighIO n.id).queued.length).sum :=
      List.le_sum_of_mem (List.mem_map.mpr ⟨n, hn, rfl⟩)
    omega
  obtain ⟨out, hout, hok, hnonempty, hflushed⟩ :=
    flushIO_spec hsend orders neighbours ios hroom
  refine ⟨out, hout, hok, hnonempty, ?_, fun id hnot =>
    ⟨(hflushed id).silent hnot, (hflushed id).unchanged hnot⟩⟩
  intro id hsendable
  have hperm := (hflushed id).bundles hsendable
  refine ⟨?_, hperm, drained_of_queued ((hflushed id).drained hsendable)⟩
  intro q hq
  apply countP_mem_of_nodup_flatten (hperm.nodup_iff.mpr (nodup_queued _))
  exact hperm.mem_iff.mpr hq

end AllNeighbours

section Sample

def sampleTransport : Transport := ⟨fun _ => 10, by simp, fun _ => true⟩

/-- The maps are walked backwards in every other pass. -/
def alternating : Nat → Nat → PassOrder := fun _ pass =>
  if pass % 2 = 0 then ⟨.stored, .stored, .stored⟩ else ⟨.reversed, .reversed, .reversed⟩

def samplePending : IOTable (ExpiryMap Source UInt16) :=
  AList.insert "b" (((IOPending.empty.sendAckRetract samplePrefix).sendRouteUpdate
      ⟨⟨"a", samplePrefix⟩, ⟨0, 7⟩⟩).requestSeqno 0 0 ⟨"o", samplePrefix⟩ 1 64)
    (AList.insert "c" (IOPending.empty.sendAckRetract samplePrefix) ∅)

/-- The link to `c` is down. -/
theorem flush_delivers_each_once_alternating : (∀ bundle, sampleTransport.send bundle = true) ∧
    ∃ enough, ∀ fuel, enough ≤ fuel → ∃ out, flushIO sampleTransport 15 fuel alternating
          [⟨"b", ∅, true, 0⟩, ⟨"c", ∅, false, 0⟩] samplePending = some out ∧
        (bundlesTo "b" out.sent).countP (fun bundle => .ack samplePrefix ∈ bundle) = 1 ∧
        (out.left.getNeighIO "b").Drained ∧
        (out.left.getNeighIO "c").queued = [.ack samplePrefix] := by
  refine ⟨fun _ => rfl, ?_⟩
  obtain ⟨enough, h⟩ := flush_delivers_each_once sampleTransport 15 alternating
    [⟨"b", ∅, true, 0⟩, ⟨"c", ∅, false, 0⟩] samplePending fun _ => rfl
  refine ⟨enough, fun fuel hfuel => ?_⟩
  obtain ⟨out, hout, _, _, hsent, hothers⟩ := h fuel hfuel
  obtain ⟨honce, _, hdrained⟩ := hsent "b" ⟨_, List.mem_cons_self, rfl, rfl⟩
  have hsilent : ¬ Sendable [⟨"b", ∅, true, 0⟩, ⟨"c", ∅, false, 0⟩] "c" := by
    simp [Sendable]
  refine ⟨out, hout, honce _ (by decide +kernel), hdrained, ?_⟩
  rw [(hothers "c" hsilent).2]
  decide +kernel

end Sample

end Nylon.Core
