import Nylon.Core.RouterAlgo
import Nylon.Lib.TTLCache
import Nylon.State.NetipBinary

/-!
What waits to be sent to the neighbours of a node, and how `flushIO` sends it to one of
them (`core/router.go`). The calls of the routing algorithm only fill queues. Updates are
encoded when they are queued, requests and acknowledgements when they are sent. Messages
are put into bundles that stay below `SafeMTU`, unless a single message is larger than
that.

The queues are walked again and again. A pass takes messages off the queues while they
are walked, until one does not fit into the bundle, and the last pass finds nothing to
take. Every pass walks each map in an order of its own, and all results hold for any of
them.
-/

namespace Nylon.Core

open State Netip Lib

/-- The messages of `protocol.Ny`, as far as the router sends them. The number
fields are wider than what the router puts into them. -/
structure NyUpdate where
  routerId : String
  pfx : List UInt8
  seqno : UInt32
  metric : UInt32
  deriving DecidableEq, Repr

structure NySeqnoRequest where
  routerId : String
  pfx : List UInt8
  seqno : UInt32
  hopCount : UInt32
  deriving DecidableEq, Repr

inductive NyMessage where
  | seqnoRequestOp (req : NySeqnoRequest)
  | routeOp (update : NyUpdate)
  | ackRetractOp (pfx : List UInt8)
  deriving DecidableEq, Repr

/-- A pending request is a seqno and a hop count. `D` is the cache of the
deduplication. -/
structure IOPending (D : Type) where
  seqnoReq : Table Source (UInt16 × UInt8)
  seqnoDedup : D
  acks : Table Prefix Unit
  updates : Table Prefix NyUpdate

inductive Queued where
  | request (src : Source) (req : UInt16 × UInt8)
  | update (pfx : Prefix) (update : NyUpdate)
  | ack (pfx : Prefix)
  deriving DecidableEq, Repr

def Queued.message : Queued → NyMessage
  | .request src req => .seqnoRequestOp
      { routerId := src.nodeId
        pfx := src.pfx.marshalBinary
        seqno := req.1.toUInt32
        hopCount := req.2.toUInt32 }
  | .update _ u => .routeOp u
  | .ack pfx => .ackRetractOp pfx.marshalBinary

def encodeUpdate (advRoute : PubRoute) : NyUpdate where
  routerId := advRoute.nodeId
  pfx := advRoute.pfx.marshalBinary
  seqno := advRoute.seqno.toUInt32
  metric := advRoute.metric

structure PassOrder where
  requests : Table.Walk Source (UInt16 × UInt8)
  updates : Table.Walk Prefix NyUpdate
  acks : Table.Walk Prefix Unit

variable {D : Type}

namespace IOPending

def sendRouteUpdate (io : IOPending D) (advRoute : PubRoute) : IOPending D :=
  {io with updates := io.updates.insert advRoute.pfx (encodeUpdate advRoute)}

def sendAckRetract (io : IOPending D) (pfx : Prefix) : IOPending D :=
  {io with acks := io.acks.insert pfx ()}

/-- The pending request after another one for the same source. -/
def mergeRequest (pending : Option (UInt16 × UInt8)) (seqno : UInt16) (hopCnt : UInt8) :
    UInt16 × UInt8 :=
  match pending with
  | none => (seqno, hopCnt)
  | some req =>
    if seqno < req.1 then (seqno, hopCnt)
    else if req.2 < hopCnt then (req.1, hopCnt)
    else req

/-- Everything that waits, in the order in which a pass would visit it. -/
def walked (io : IOPending D) (w : PassOrder) : List Queued :=
  (w.requests.walk io.seqnoReq).entries.map (fun e => .request e.1 e.2) ++
    (w.updates.walk io.updates).entries.map (fun e => .update e.1 e.2) ++
    (w.acks.walk io.acks).entries.map (fun e => .ack e.1)

def queued (io : IOPending D) : List Queued :=
  io.walked ⟨.stored, .stored, .stored⟩

def remove (io : IOPending D) : Queued → IOPending D
  | .request src _ => {io with seqnoReq := io.seqnoReq.erase src}
  | .update pfx _ => {io with updates := io.updates.erase pfx}
  | .ack pfx => {io with acks := io.acks.erase pfx}

def Holds (io : IOPending D) : Queued → Prop
  | .request src req => io.seqnoReq.lookup src = some req
  | .update pfx u => io.updates.lookup pfx = some u
  | .ack pfx => io.acks.lookup pfx = some ()

/-- What queues a message apart from the deduplication. -/
def put (io : IOPending D) : Queued → IOPending D
  | .request src req => {io with seqnoReq := io.seqnoReq.insert src req}
  | .update pfx u => {io with updates := io.updates.insert pfx u}
  | .ack pfx => {io with acks := io.acks.insert pfx ()}

def Drained (io : IOPending D) : Prop :=
  io.seqnoReq = ∅ ∧ io.updates = ∅ ∧ io.acks = ∅

variable [TTLCache D Source UInt16]

def empty : IOPending D := ⟨∅, TTLCache.empty, ∅, ∅⟩

/-- `maxSeq` becomes the entry of the deduplication. -/
def enqueueRequest (io : IOPending D) (ttl now : Time) (src : Source) (seqno maxSeq : UInt16)
    (hopCnt : UInt8) : IOPending D :=
  { io with
    seqnoDedup := TTLCache.set io.seqnoDedup ttl now src maxSeq
    seqnoReq := io.seqnoReq.insert src (mergeRequest (io.seqnoReq.lookup src) seqno hopCnt) }

def requestSeqno (io : IOPending D) (ttl now : Time) (src : Source) (seqno : UInt16)
    (hopCnt : UInt8) : IOPending D :=
  match TTLCache.get io.seqnoDedup now src with
  | none => io.enqueueRequest ttl now src seqno seqno hopCnt
  | some old =>
    if seqnoGe old seqno then io
    else io.enqueueRequest ttl now src seqno (max seqno old) hopCnt

/-- `GcRouter`, for a node that still is a neighbour. -/
def gc (io : IOPending D) (now : Time) : IOPending D :=
  {io with seqnoDedup := TTLCache.deleteExpired io.seqnoDedup now}

end IOPending

/-- `n.router.IO`. -/
abbrev IOTable (D : Type) := Table NodeId (IOPending D)

namespace IOTable

variable [TTLCache D Source UInt16]

def getNeighIO (ios : IOTable D) (neigh : NodeId) : IOPending D :=
  (ios.lookup neigh).getD .empty

/-- Changes the queues to one neighbour, which are made if they are not there. -/
def modify (ios : IOTable D) (neigh : NodeId) (f : IOPending D → IOPending D) : IOTable D :=
  ios.insert neigh (f (ios.getNeighIO neigh))

/-- A call of the `Router` interface, with the neighbours of the node and the lifetime
of the deduplication. -/
def perform (ttl now : Time) (neighbours : List NodeId) (ios : IOTable D) :
    RouterCall → IOTable D
  | .sendRouteUpdate neigh advRoute => ios.modify neigh (·.sendRouteUpdate advRoute)
  | .sendAckRetract neigh pfx => ios.modify neigh (·.sendAckRetract pfx)
  | .broadcastSendRouteUpdate advRoute =>
    neighbours.foldl (fun ios neigh => ios.modify neigh (·.sendRouteUpdate advRoute)) ios
  | .requestSeqno neigh src seqno hopCnt =>
    ios.modify neigh (·.requestSeqno ttl now src seqno hopCnt)
  | .broadcastRequestSeqno src seqno hopCnt =>
    neighbours.foldl
      (fun ios neigh => ios.modify neigh (·.requestSeqno ttl now src seqno hopCnt)) ios
  | .tableInsertRoute _ _ => ios
  | .tableDeleteRoute _ => ios

end IOTable

section Queues

variable {io : IOPending D}

theorem mem_queued {q : Queued} : q ∈ io.queued ↔ io.Holds q := by
  cases q <;> simp [IOPending.queued, IOPending.walked, IOPending.Holds, Table.Walk.stored,
    ← Table.mem_entries_iff, Sigma.exists, Unique.exists_iff]

theorem mem_queued_put {q x : Queued} (h : x ∈ (io.put q).queued) : x ∈ io.queued ∨ x = q := by
  rw [mem_queued] at h ⊢
  cases q <;> cases x <;> grind [IOPending.Holds, IOPending.put, Table.lookup_insert_eq]

theorem walked_perm (io : IOPending D) (w : PassOrder) : (io.walked w).Perm io.queued :=
  (((w.requests.perm io.seqnoReq).map _).append ((w.updates.perm io.updates).map _)).append
    ((w.acks.perm io.acks).map _)

theorem nodup_queued (io : IOPending D) : io.queued.Nodup := by
  unfold IOPending.queued IOPending.walked
  have hkeys : ∀ {κ α : Type} (m : Table κ α) (f : (Σ _ : κ, α) → Queued),
      Function.Injective f → (m.entries.map f).Nodup :=
    fun m f hf => (List.NodupKeys.nodup m.nodupKeys).map hf
  rw [List.nodup_append', List.nodup_append']
  refine ⟨⟨hkeys _ _ ?_, hkeys _ _ ?_, ?_⟩, hkeys _ _ ?_, ?_⟩
  · rintro ⟨k, v⟩ ⟨k', v'⟩ h
    cases h
    rfl
  · rintro ⟨k, v⟩ ⟨k', v'⟩ h
    cases h
    rfl
  · intro q hq hq'
    obtain ⟨_, _, rfl⟩ := List.mem_map.mp hq
    simp at hq'
  · rintro ⟨k, v⟩ ⟨k', v'⟩ h
    cases h
    rfl
  · intro q hq hq'
    obtain ⟨_, _, rfl⟩ := List.mem_map.mp hq'
    simp at hq

/-- Removing one message leaves the others. -/
theorem mem_queued_remove {q : Queued} (hq : q ∈ io.queued) (x : Queued) :
    x ∈ (io.remove q).queued ↔ x ∈ io.queued ∧ x ≠ q := by
  simp only [mem_queued] at hq ⊢
  cases q <;> cases x <;> grind [IOPending.Holds, IOPending.remove, Table.lookup_erase_eq]

theorem mem_queued_foldl_remove {bundle : List Queued} (hnodup : bundle.Nodup)
    (hbundle : ∀ q ∈ bundle, q ∈ io.queued) (x : Queued) :
    x ∈ (bundle.foldl IOPending.remove io).queued ↔ x ∈ io.queued ∧ x ∉ bundle := by
  induction bundle generalizing io with
  | nil => simp
  | cons q bundle ih =>
    obtain ⟨hfirst, hnodup⟩ := List.nodup_cons.mp hnodup
    have hq := hbundle q (by simp)
    have hrest : ∀ r ∈ bundle, r ∈ (io.remove q).queued := by
      intro r hr
      refine (mem_queued_remove hq r).mpr ⟨hbundle r (by simp [hr]), ?_⟩
      rintro rfl
      exact hfirst hr
    rw [List.foldl_cons, ih hnodup hrest, mem_queued_remove hq, List.mem_cons, not_or, and_assoc]

/-- What a pass leaves is what it visited and did not take. -/
theorem queued_after_pass {w : PassOrder} {bundle rest : List Queued}
    (h : io.walked w = bundle ++ rest) :
    (bundle.foldl IOPending.remove io).queued.Perm rest := by
  have hperm := h ▸ walked_perm io w
  have hnodup : (bundle ++ rest).Nodup := hperm.nodup_iff.mpr (nodup_queued io)
  obtain ⟨hbundle, hrest, hdisjoint⟩ := List.nodup_append'.mp hnodup
  have hmem : ∀ q ∈ bundle, q ∈ io.queued :=
    fun q hq => hperm.mem_iff.mp (List.mem_append_left rest hq)
  rw [List.perm_ext_iff_of_nodup (nodup_queued _) hrest]
  intro x
  rw [mem_queued_foldl_remove hbundle hmem, ← hperm.mem_iff, List.mem_append]
  constructor
  · rintro ⟨hx | hx, hnot⟩
    · exact absurd hx hnot
    · exact hx
  · intro hx
    exact ⟨Or.inr hx, fun hb => hdisjoint hb hx⟩

theorem drained_of_queued (h : io.queued = []) : io.Drained := by
  unfold IOPending.queued IOPending.walked at h
  simp only [List.append_eq_nil_iff, List.map_eq_nil_iff] at h
  exact ⟨AList.ext h.1.1, AList.ext h.1.2, AList.ext h.2⟩

theorem seqnoDedup_foldl_remove (io : IOPending D) (bundle : List Queued) :
    (bundle.foldl IOPending.remove io).seqnoDedup = io.seqnoDedup := by
  induction bundle generalizing io with
  | nil => rfl
  | cons q bundle ih =>
    rw [List.foldl_cons, ih]
    cases q <;> rfl

end Queues

/-- A merged request has a seqno and a hop count that were asked for. -/
theorem mergeRequest_cases (pending : Option (UInt16 × UInt8)) (seqno : UInt16) (hopCnt : UInt8) :
    IOPending.mergeRequest pending seqno hopCnt = (seqno, hopCnt) ∨ ∃ req, pending = some req ∧
        (IOPending.mergeRequest pending seqno hopCnt = (req.1, hopCnt) ∨
          IOPending.mergeRequest pending seqno hopCnt = req) := by
  cases pending with
  | none => exact Or.inl rfl
  | some req =>
    rw [IOPending.mergeRequest]
    split
    · exact Or.inl rfl
    · apply Or.inr
      split
      · exact ⟨req, rfl, Or.inl rfl⟩
      · exact ⟨req, rfl, Or.inr rfl⟩

section Flush

/-- `proto.Size`, which is positive since a message has a tag, and whether
`SendNylonBundle` succeeds. -/
structure Transport where
  size : NyMessage → Nat
  size_pos : ∀ m, 0 < size m
  send : List NyMessage → Bool

variable (tr : Transport) (safeMTU : Nat)

/-- The messages that fit into the bundle, after `tLength` bytes. -/
def takeBundle (tLength : Nat) : List Queued → List Queued
  | [] => []
  | q :: rest =>
    if tLength ≠ 0 ∧ safeMTU ≤ tLength + tr.size q.message then []
    else q :: takeBundle (tLength + tr.size q.message) rest

def bundleSize (bundle : List Queued) : Nat :=
  (bundle.map fun q => tr.size q.message).sum

/-- What a call of `flushIO` has handed to `SendNylonBundle`, what waits afterwards, and
whether the call returned the error of a bundle. -/
structure Flushed (σ τ : Type) where
  sent : List σ
  left : τ
  failed : Bool

/-- The passes for one neighbour. The loop has no bound of its own; `none` means that it
needs more than `fuel` passes. -/
def flushPasses : (fuel : Nat) → (orders : Nat → PassOrder) → IOPending D →
    Option (Flushed (List Queued) (IOPending D))
  | 0, _, _ => none
  | fuel + 1, orders, io =>
    let bundle := takeBundle tr safeMTU 0 (io.walked (orders 0))
    let rest := bundle.foldl IOPending.remove io
    if bundleSize tr bundle = 0 then some ⟨[], rest, false⟩
    else if tr.send (bundle.map Queued.message) then
      (flushPasses fuel (fun pass => orders (pass + 1)) rest).map fun later =>
        {later with sent := bundle :: later.sent}
    else some ⟨[bundle], rest, true⟩

/-- A pass takes at least one message, so there are at most as many as messages. -/
def flushNeighbour (orders : Nat → PassOrder) (io : IOPending D) :
    Flushed (List Queued) (IOPending D) :=
  (flushPasses tr safeMTU (io.queued.length + 1) orders io).getD ⟨[], io, false⟩

theorem takeBundle_append (tLength : Nat) (qs : List Queued) :
    ∃ rest, qs = takeBundle tr safeMTU tLength qs ++ rest := by
  induction qs generalizing tLength with
  | nil => exact ⟨[], rfl⟩
  | cons q qs ih =>
    rw [takeBundle]
    split
    · exact ⟨q :: qs, rfl⟩
    · obtain ⟨rest, hrest⟩ := ih (tLength + tr.size q.message)
      exact ⟨rest, congrArg (q :: ·) hrest⟩

/-- The first message is sent whatever its size. -/
theorem takeBundle_cons (q : Queued) (qs : List Queued) :
    ∃ bundle, takeBundle tr safeMTU 0 (q :: qs) = q :: bundle := by
  simp [takeBundle]

variable {tr safeMTU}

theorem bundleSize_pos (q : Queued) (bundle : List Queued) : 0 < bundleSize tr (q :: bundle) := by
  have := tr.size_pos q.message
  simp only [bundleSize, List.map_cons, List.sum_cons]
  omega

/-- The passes come to an end since each of them but the last takes a message. All
together they hand over what was waiting, or all of it up to the bundle that failed. -/
theorem flushPasses_spec (tr : Transport) (safeMTU : Nat) {fuel : Nat}
    (orders : Nat → PassOrder) {io : IOPending D} (hfuel : io.queued.length < fuel) :
    ∃ out, flushPasses tr safeMTU fuel orders io = some out ∧
      (out.sent.flatten ++ out.left.queued).Perm io.queued ∧
      out.left.seqnoDedup = io.seqnoDedup ∧
      (∀ bundle ∈ out.sent, bundle ≠ []) ∧
      (out.failed = false → out.left.queued = []) ∧
      (out.failed = true → ∃ bundle, tr.send bundle = false) := by
  induction fuel generalizing orders io with
  | zero => omega
  | succ fuel ih =>
    obtain ⟨rest, hrest⟩ := takeBundle_append tr safeMTU 0 (io.walked (orders 0))
    have hperm := walked_perm io (orders 0)
    have hafter := queued_after_pass hrest
    rw [flushPasses]
    cases hwalk : io.walked (orders 0) with
    | nil =>
      rw [hwalk] at hperm
      have hempty := List.nil_perm.mp hperm
      exact ⟨_, if_pos rfl, .refl _, rfl, by simp, fun _ => hempty, by simp⟩
    | cons q qs =>
      rw [hwalk] at hrest hperm hafter
      obtain ⟨bundle, hbundle⟩ := takeBundle_cons tr safeMTU q qs
      rw [hbundle] at hrest hafter ⊢
      have htaken : (q :: bundle ++ (List.foldl IOPending.remove io (q :: bundle)).queued).Perm
          io.queued :=
        (hafter.append_left _).trans (hrest ▸ hperm)
      have hdedup := seqnoDedup_foldl_remove io (q :: bundle)
      rw [if_neg (bundleSize_pos q bundle).ne']
      cases hsend : tr.send ((q :: bundle).map Queued.message) with
      | false =>
        exact ⟨_, rfl, by simpa using htaken, hdedup, by simp, by simp, fun _ => ⟨_, hsend⟩⟩
      | true =>
        have hshorter : (List.foldl IOPending.remove io (q :: bundle)).queued.length <
            fuel := by
          have hlength := htaken.length_eq
          rw [List.length_append, List.length_cons] at hlength
          omega
        obtain ⟨later, hlater, hsent, hsame, hnonempty, hleft, hfailed⟩ :=
          ih (fun pass => orders (pass + 1)) hshorter
        rw [if_pos rfl, hlater]
        refine ⟨_, rfl, ?_, hsame.trans hdedup, ?_, hleft, hfailed⟩
        · rw [List.flatten_cons, List.append_assoc]
          exact (hsent.append_left _).trans htaken
        · intro b hb
          rcases List.mem_cons.mp hb with rfl | hb
          · exact List.cons_ne_nil q bundle
          · exact hnonempty b hb

/-- Everything that waits is handed over in bundles, up to the first error. -/
theorem flushNeighbour_spec (tr : Transport) (safeMTU : Nat) (orders : Nat → PassOrder)
    (io : IOPending D) : let out := flushNeighbour tr safeMTU orders io
    (out.sent.flatten ++ out.left.queued).Perm io.queued ∧
      out.left.seqnoDedup = io.seqnoDedup ∧
      ((∀ bundle, tr.send bundle = true) → out.left.queued = []) := by
  obtain ⟨out, hout, hsent, hdedup, _, hleft, hfailed⟩ :=
    flushPasses_spec tr safeMTU orders (Nat.lt_succ_self io.queued.length)
  rw [flushNeighbour, hout]
  refine ⟨hsent, hdedup, fun hsend => hleft ?_⟩
  by_contra hnot
  obtain ⟨bundle, hbundle⟩ := hfailed (Bool.eq_true_of_not_eq_false hnot)
  exact nomatch (hsend bundle).symm.trans hbundle

end Flush

end Nylon.Core
