import Nylon.Core.Advertising
import Nylon.Core.NeighIO
import Nylon.Core.TaskSpec

/-!
Control messages on the wire (`core/router.go`). What the router queues for a
neighbour is encoded into protobuf messages, and the handlers of the neighbour
decode them again. The handlers cut the 32-bit seqno and hop count of a message
down to 16 and 8 bits without a check, and so accept numbers that no encoder
produces as others. A prefix with a zone is accepted as the one without.
-/

namespace Nylon.Core

open Lib Netip State

section Handlers

/-- What a handler does with a message: nothing, or a call of the routing
algorithm, which would have an invalid prefix if the configuration had one. -/
inductive Handled where
  | rejected
  | invalidPrefix
  | calls (e : Event)
  deriving DecidableEq

def Handled.ofEvent : Option Event → Handled
  | none => .rejected
  | some e => .calls e

variable {T : Type → Type} (n : NylonNode T) (env : Env) (neigh : NodeId)

/-- `checkPrefix` for a prefix that may be invalid. -/
def knowsPrefix (p : Option Prefix) : Bool :=
  n.centralCfg.getNodes.any fun node => node.prefixes.any fun h => h.settings.getPrefix == p

/-- A handler decodes the prefix first. -/
def withPrefixOf (bytes : List UInt8) (msg : Prefix → ControlMsg) : Handled :=
  match Prefix.unmarshalBinary bytes with
  | .error _ => .rejected
  | .ok none => if knowsPrefix n none then .invalidPrefix else .rejected
  | .ok (some p) => .ofEvent (controlEvent n env neigh (msg p))

def routerApplyRouteUpdate (update : NyUpdate) : Handled :=
  withPrefixOf n env neigh update.pfx fun p =>
    .routeUpdate ⟨⟨update.routerId, p⟩, ⟨update.seqno.toUInt16, update.metric⟩⟩

def routerHandleAckRetract (pfx : List UInt8) : Handled :=
  withPrefixOf n env neigh pfx .ackRetract

def routerHandleSeqnoRequest (pkt : NySeqnoRequest) : Handled :=
  withPrefixOf n env neigh pkt.pfx fun p =>
    .seqnoRequest ⟨pkt.routerId, p⟩ pkt.seqno.toUInt16 pkt.hopCount.toUInt8

def handleMessage : NyMessage → Handled
  | .seqnoRequestOp pkt => routerHandleSeqnoRequest n env neigh pkt
  | .routeOp update => routerApplyRouteUpdate n env neigh update
  | .ackRetractOp pfx => routerHandleAckRetract n env neigh pfx

end Handlers

section Messages

/-- The message that stands for these values. -/
def ControlMsg.encode : ControlMsg → NyMessage
  | .routeUpdate adv => .routeOp (encodeUpdate adv)
  | .seqnoRequest src seqno hopCnt => (Queued.request src (seqno, hopCnt)).message
  | .ackRetract pfx => (Queued.ack pfx).message

namespace NyMessage

def pfx : NyMessage → List UInt8
  | .seqnoRequestOp pkt => pkt.pfx
  | .routeOp update => update.pfx
  | .ackRetractOp pfx => pfx

/-- The values a handler reads from a message with this prefix. -/
def values : NyMessage → Prefix → ControlMsg
  | .seqnoRequestOp pkt, p =>
    .seqnoRequest ⟨pkt.routerId, p⟩ pkt.seqno.toUInt16 pkt.hopCount.toUInt8
  | .routeOp update, p =>
    .routeUpdate ⟨⟨update.routerId, p⟩, ⟨update.seqno.toUInt16, update.metric⟩⟩
  | .ackRetractOp _, p => .ackRetract p

/-- The numbers fit into the fields of the router, and the prefix has no zone. -/
def InRange : NyMessage → Prop
  | .seqnoRequestOp pkt => pkt.pfx.length ≤ 17 ∧ pkt.seqno < 65536 ∧ pkt.hopCount < 256
  | .routeOp update => update.pfx.length ≤ 17 ∧ update.seqno < 65536
  | .ackRetractOp pfx => pfx.length ≤ 17

instance (m : NyMessage) : Decidable m.InRange := by
  cases m <;> dsimp only [InRange] <;> infer_instance

end NyMessage

variable {T : Type → Type} {n : NylonNode T} {env : Env} {neigh : NodeId}

theorem handleMessage_eq (m : NyMessage) :
    handleMessage n env neigh m = withPrefixOf n env neigh m.pfx m.values := by
  cases m <;> rfl

/-- Every message that is encoded is decoded to the same values. -/
theorem handleMessage_encode (msg : ControlMsg) :
    handleMessage n env neigh msg.encode = .ofEvent (controlEvent n env neigh msg) := by
  rw [handleMessage_eq]
  cases msg with
  | routeUpdate adv =>
    simp [ControlMsg.encode, encodeUpdate, NyMessage.pfx, NyMessage.values, withPrefixOf,
      Prefix.unmarshal_marshal]
  | seqnoRequest src seqno hopCnt =>
    simp [ControlMsg.encode, Queued.message, NyMessage.pfx, NyMessage.values, withPrefixOf,
      Prefix.unmarshal_marshal]
  | ackRetract pfx =>
    simp [ControlMsg.encode, Queued.message, NyMessage.pfx, NyMessage.values, withPrefixOf,
      Prefix.unmarshal_marshal]

theorem toUInt16_toUInt32 {x : UInt32} (h : x < 65536) : x.toUInt16.toUInt32 = x := by
  apply UInt32.toNat_inj.mp
  have hlt : x.toNat < 65536 := UInt32.lt_iff_toNat_lt.mp h
  rw [UInt16.toNat_toUInt32, UInt32.toNat_toUInt16]
  omega

theorem toUInt8_toUInt32 {x : UInt32} (h : x < 256) : x.toUInt8.toUInt32 = x := by
  apply UInt32.toNat_inj.mp
  have hlt : x.toNat < 256 := UInt32.lt_iff_toNat_lt.mp h
  rw [UInt8.toNat_toUInt32, UInt32.toNat_toUInt8]
  omega

theorem inRange_encode (msg : ControlMsg) : msg.encode.InRange := by
  have hseqno : ∀ x : UInt16, x.toUInt32 < 65536 := by
    intro x
    have := x.toNat_lt
    rw [UInt32.lt_iff_toNat_lt, UInt16.toNat_toUInt32]
    exact this
  have hhops : ∀ x : UInt8, x.toUInt32 < 256 := by
    intro x
    have := x.toNat_lt
    rw [UInt32.lt_iff_toNat_lt, UInt8.toNat_toUInt32]
    exact this
  cases msg with
  | routeUpdate adv => exact ⟨adv.pfx.length_marshalBinary_le, hseqno adv.seqno⟩
  | seqnoRequest src seqno hopCnt =>
    exact ⟨src.pfx.length_marshalBinary_le, hseqno seqno, hhops hopCnt⟩
  | ackRetract pfx => exact pfx.length_marshalBinary_le

/-- A message in range with a valid prefix is the encoding of its values. -/
theorem encode_values {m : NyMessage} {p : Prefix} (hrange : m.InRange)
    (hp : Prefix.unmarshalBinary m.pfx = .ok (some p)) : (m.values p).encode = m := by
  cases m with
  | seqnoRequestOp pkt =>
    obtain ⟨hlength, hseqno, hhops⟩ := hrange
    have hback : p.marshalBinary = pkt.pfx := Prefix.marshal_of_unmarshal hp hlength
    simp only [NyMessage.values, ControlMsg.encode, Queued.message, hback,
      toUInt16_toUInt32 hseqno, toUInt8_toUInt32 hhops]
  | routeOp update =>
    obtain ⟨hlength, hseqno⟩ := hrange
    have hback : p.marshalBinary = update.pfx := Prefix.marshal_of_unmarshal hp hlength
    simp only [NyMessage.values, ControlMsg.encode, encodeUpdate, hback, toUInt16_toUInt32 hseqno]
  | ackRetractOp pfx =>
    have hback : p.marshalBinary = pfx := Prefix.marshal_of_unmarshal hp hrange
    simp only [NyMessage.values, ControlMsg.encode, Queued.message, hback]

end Messages

section Rejection

variable {T : Type → Type}

def NyMessage.checkRouterId (n : NylonNode T) : NyMessage → Bool
  | .seqnoRequestOp pkt => checkNode n pkt.routerId
  | .routeOp update => checkNode n update.routerId
  | .ackRetractOp _ => true

/-- The prefix of a message is not valid, or the neighbour, the prefix or the
router-id is not known. -/
def NyMessage.Unknown (n : NylonNode T) (neigh : NodeId) (m : NyMessage) : Prop :=
  ∀ p, Prefix.unmarshalBinary m.pfx = .ok (some p) →
    checkNeigh n neigh = false ∨ checkPrefix n p = false ∨ m.checkRouterId n = false

/-- All prefixes of a configuration are valid. -/
def ValidPrefixes (c : CentralCfg Health) : Prop :=
  ∀ node ∈ c.getNodes, ∀ h ∈ node.prefixes, h.settings.getPrefix.isSome

variable {n : NylonNode T} {env : Env} {neigh : NodeId}

theorem controlEvent_eq_none (m : NyMessage) (p : Prefix) :
    controlEvent n env neigh (m.values p) = none ↔
      checkNeigh n neigh = false ∨ checkPrefix n p = false ∨ m.checkRouterId n = false := by
  cases hneigh : checkNeigh n neigh <;> cases hprefix : checkPrefix n p <;> cases m <;>
    simp [NyMessage.values, controlEvent, NyMessage.checkRouterId, hneigh, hprefix]

theorem knowsPrefix_none (h : ValidPrefixes n.centralCfg) : knowsPrefix n none = false := by
  rw [knowsPrefix, List.any_eq_false]
  intro node hnode hany
  obtain ⟨health, hmem, hnone⟩ := List.any_eq_true.mp hany
  have hvalid := h node hnode health hmem
  simp_all

theorem handleMessage_rejected_iff (h : ValidPrefixes n.centralCfg) (m : NyMessage) :
    handleMessage n env neigh m = .rejected ↔ m.Unknown n neigh := by
  rw [handleMessage_eq, withPrefixOf]
  constructor
  · intro hrejected p hp
    rw [hp] at hrejected
    rw [← controlEvent_eq_none]
    cases hevent : controlEvent n env neigh (m.values p) with
    | none => rfl
    | some e =>
      simp only [hevent, Handled.ofEvent] at hrejected
      cases hrejected
  · intro hunknown
    split
    · rfl
    · rw [knowsPrefix_none h]
      rfl
    · next p hp =>
      rw [(controlEvent_eq_none m p).mpr (hunknown p hp)]
      rfl

end Rejection

section RunningNode

variable {T : Type → Type}

theorem validPrefixes_allocate {c : CentralCfg PrefixHealth} (h : Accepted c) (born : Nat) :
    ValidPrefixes (c.allocate born) := by
  intro node hnode health hhealth
  rw [CentralCfg.allocate, CentralCfg.getNodes_map] at hnode
  obtain ⟨node, hmem, rfl⟩ := List.mem_map.mp hnode
  obtain ⟨p, hp, rfl⟩ := List.mem_map.mp hhealth
  rcases List.mem_append.mp hmem with hrouter | hclient
  · obtain ⟨router, hin, rfl⟩ := List.mem_map.mp hrouter
    exact h.validPrefixes router hin p hp
  · exact h.validClients node hclient p hp

/-- Replacing health checks by others with the same prefixes. -/
theorem ValidPrefixes.mapPrefixesOf {c : CentralCfg Health} (h : ValidPrefixes c)
    {f : Health → Health} {node : NodeId}
    (hf : ∀ health, (f health).settings.getPrefix = health.settings.getPrefix) :
    ValidPrefixes (c.mapPrefixesOf node f) := by
  intro x hx health hhealth
  rcases List.mem_append.mp hx with hrouter | hclient
  · obtain ⟨router, hmem, rfl⟩ := List.mem_map.mp hrouter
    obtain ⟨old, hold, rfl⟩ := List.mem_map.mp hmem
    have hvalid := h old.toNodeCfg
      (List.mem_append_left _ (List.mem_map_of_mem (f := RouterCfg.toNodeCfg) hold))
    split at hhealth
    · obtain ⟨before, hbefore, rfl⟩ := List.mem_map.mp hhealth
      rw [hf]
      exact hvalid before hbefore
    · exact hvalid health hhealth
  · exact h x (List.mem_append_right _ hclient) health hhealth

variable [PrefixTable T]

/-- The prefixes of a running node have passed the checks. -/
theorem validPrefixes_run {libs : Libraries} {env : Env} {localCfg : LocalCfg}
    {cfg : CentralCfg PrefixHealth} {n m : NylonNode T} {tasks : List NodeTask}
    (hstart : bootstrap libs env localCfg cfg = .ok n)
    (hrun : nodeRun libs n tasks = some m) : ValidPrefixes m.centralCfg := by
  have hn : ValidPrefixes n.centralCfg := by
    obtain ⟨central, peers, idMap, _, k, haccepted, _, _, rfl, hsync, _, _, rfl⟩ :=
      bootstrap_ok hstart
    rw [hsync.frame]
    exact (validPrefixes_allocate haccepted 0).mapPrefixesOf fun health => by
      simp [Health.started]
  refine nodeRun_invariant (fun k task k' (hk : ValidPrefixes k.centralCfg) _ hafter => ?_) hn
    Transitions.along_true m hrun
  rcases centralCfg_afterTask hafter with hsame | ⟨cfg, _, next, hnext, hnew⟩
  · rwa [hsame]
  · have hchecked := acceptConfig_ok hnext
    have hnext : ValidPrefixes next := by
      rw [hchecked.fresh]
      exact validPrefixes_allocate hchecked.accepted _
    rw [hnew]
    exact hnext.mapPrefixesOf (getPrefix_chooseHealth _ _)

end RunningNode

section Queue

variable {events : List QueueEvent} {q : Queued} {D : Type} [TTLCache D Source UInt16]

/-- What happens to the queue of a neighbour. -/
inductive QueueEvent where
  | sendRouteUpdate (advRoute : PubRoute)
  | sendAckRetract (pfx : Prefix)
  | requestSeqno (ttl now : Time) (src : Source) (seqno : UInt16) (hopCnt : UInt8)
  | gc (now : Time)
  | flush (tr : Transport) (safeMTU : Nat) (orders : Nat → PassOrder)

def IOPending.handle (io : IOPending D) : QueueEvent → IOPending D
  | .sendRouteUpdate advRoute => io.sendRouteUpdate advRoute
  | .sendAckRetract pfx => io.sendAckRetract pfx
  | .requestSeqno ttl now src seqno hopCnt => io.requestSeqno ttl now src seqno hopCnt
  | .gc now => io.gc now
  | .flush tr safeMTU orders => (flushNeighbour tr safeMTU orders io).left

/-- A message has been queued: an update or an acknowledgement as it is, a request
with a seqno and a hop count of requests for its source. -/
def QueuedBy (events : List QueueEvent) : ControlMsg → Prop
  | .routeUpdate adv => .sendRouteUpdate adv ∈ events
  | .ackRetract pfx => .sendAckRetract pfx ∈ events
  | .seqnoRequest src seqno hopCnt =>
    (∃ ttl now hopCnt', .requestSeqno ttl now src seqno hopCnt' ∈ events) ∧
      ∃ ttl now seqno', .requestSeqno ttl now src seqno' hopCnt ∈ events

/-- Where a message that waits comes from. -/
def Queued.From (events : List QueueEvent) : Queued → Prop
  | .request src req => QueuedBy events (.seqnoRequest src req.1 req.2)
  | .update _ u => ∃ adv, u = encodeUpdate adv ∧ .sendRouteUpdate adv ∈ events
  | .ack pfx => .sendAckRetract pfx ∈ events

theorem Queued.From.append (h : q.From events)
    (later : List QueueEvent) : q.From (events ++ later) := by
  have hmem : ∀ e ∈ events, e ∈ events ++ later := fun _ => List.mem_append_left _
  cases q with
  | request src req =>
    obtain ⟨⟨ttl, now, hopCnt, hseqno⟩, ttl', now', seqno, hhops⟩ := h
    exact ⟨⟨ttl, now, hopCnt, hmem _ hseqno⟩, ttl', now', seqno, hmem _ hhops⟩
  | update pfx u =>
    obtain ⟨adv, hu, hadv⟩ := h
    exact ⟨adv, hu, hmem _ hadv⟩
  | ack pfx => exact hmem _ h

/-- What waits after a request is what waited before, and the merged request. -/
theorem mem_queued_requestSeqno {io : IOPending D} {ttl now : Time} {src : Source}
    {seqno : UInt16} {hopCnt : UInt8}
    (h : q ∈ (io.requestSeqno ttl now src seqno hopCnt).queued) :
    q ∈ io.queued ∨
      q = .request src (IOPending.mergeRequest (io.seqnoReq.lookup src) seqno hopCnt) := by
  unfold IOPending.requestSeqno at h
  split at h
  · exact mem_queued_put h
  · split at h
    · exact Or.inl h
    · exact mem_queued_put h

/-- Everything that waits has been queued. -/
theorem from_of_mem_queued
    (h : q ∈ (Transitions.run IOPending.handle (IOPending.empty : IOPending D) events).queued) :
    q.From events := by
  induction events using List.reverseRecOn generalizing q with
  | nil => cases h
  | append_singleton events e ih =>
    have hlast : e ∈ events ++ [e] := List.mem_append_right _ List.mem_cons_self
    rw [Transitions.run, List.foldl_append, List.foldl_cons, List.foldl_nil] at h
    change q ∈ ((Transitions.run IOPending.handle (.empty : IOPending D) events).handle e).queued
      at h
    generalize Transitions.run IOPending.handle (.empty : IOPending D) events = io at h ih
    cases e with
    | sendRouteUpdate adv =>
      have hput : q ∈ (io.put (.update adv.pfx (encodeUpdate adv))).queued := h
      rcases mem_queued_put hput with hold | rfl
      · exact (ih hold).append _
      · exact ⟨adv, rfl, hlast⟩
    | sendAckRetract p =>
      have hput : q ∈ (io.put (.ack p)).queued := h
      rcases mem_queued_put hput with hold | rfl
      · exact (ih hold).append _
      · exact hlast
    | requestSeqno ttl now src seqno hopCnt =>
      rcases mem_queued_requestSeqno h with hold | rfl
      · exact (ih hold).append _
      · rcases mergeRequest_cases (io.seqnoReq.lookup src) seqno hopCnt with
          hnew | ⟨req, hreq, hmerged⟩
        · rw [hnew]
          exact ⟨⟨ttl, now, hopCnt, hlast⟩, ttl, now, seqno, hlast⟩
        · obtain ⟨hseqno, hhops⟩ := (ih ((mem_queued (q := .request src req)).mpr hreq)).append
            [.requestSeqno ttl now src seqno hopCnt]
          rcases hmerged with hmerged | hmerged
          · rw [hmerged]
            exact ⟨hseqno, ttl, now, seqno, hlast⟩
          · rw [hmerged]
            exact ⟨hseqno, hhops⟩
    | gc now => exact (ih h).append _
    | flush tr safeMTU orders =>
      apply Queued.From.append
      apply ih
      rw [← (flushNeighbour_spec tr safeMTU orders io).1.mem_iff]
      exact List.mem_append_right _ h

/-- What is queued for a neighbour is sent once, unless sending fails, and the
neighbour calls the routing algorithm with the values that were queued. -/
structure DeliversQueued (D : Type) [TTLCache D Source UInt16] {T : Type → Type}
    (n : NylonNode T) (env : Env) (neigh : NodeId) (events : List QueueEvent) (tr : Transport)
    (safeMTU : Nat) (orders : Nat → PassOrder) : Prop where
  sent : (∀ bundle, tr.send bundle = true) →
    (flushNeighbour tr safeMTU orders
      (Transitions.run IOPending.handle (.empty : IOPending D) events)).sent.flatten.Perm
        (Transitions.run IOPending.handle (.empty : IOPending D) events).queued
  handled : ∀ bundle ∈ (flushNeighbour tr safeMTU orders
      (Transitions.run IOPending.handle (.empty : IOPending D) events)).sent, ∀ q ∈ bundle,
    ∃ msg, QueuedBy events msg ∧ q.message = msg.encode ∧
      handleMessage n env neigh q.message = .ofEvent (controlEvent n env neigh msg)

theorem Queued.From.message (h : q.From events) :
    ∃ msg, QueuedBy events msg ∧ q.message = msg.encode := by
  cases q with
  | request src req => exact ⟨.seqnoRequest src req.1 req.2, h, rfl⟩
  | update pfx u =>
    obtain ⟨adv, rfl, hadv⟩ := h
    exact ⟨.routeUpdate adv, hadv, rfl⟩
  | ack pfx => exact ⟨.ackRetract pfx, h, rfl⟩

theorem deliversQueued {T : Type → Type} (n : NylonNode T) (env : Env) (neigh : NodeId)
    (events : List QueueEvent) (tr : Transport) (safeMTU : Nat) (orders : Nat → PassOrder) :
    DeliversQueued D n env neigh events tr safeMTU orders := by
  obtain ⟨hflushed, _, hrest⟩ := flushNeighbour_spec tr safeMTU orders
    (Transitions.run IOPending.handle (.empty : IOPending D) events)
  constructor
  · intro hsend
    rw [hrest hsend, List.append_nil] at hflushed
    exact hflushed
  · intro bundle hbundle q hq
    have hqueued := hflushed.mem_iff.mp
      (List.mem_append_left _ (List.mem_flatten.mpr ⟨bundle, hbundle, hq⟩))
    obtain ⟨msg, hmsg, hencode⟩ := (from_of_mem_queued hqueued).message
    refine ⟨msg, hmsg, hencode, ?_⟩
    rw [hencode]
    exact handleMessage_encode msg

end Queue

section Codec

variable {T : Type → Type} [PrefixTable T] {D : Type} [TTLCache D Source UInt16]

/-- Queued messages are handled with their values. A message that no encoder
produces is rejected exactly if its numbers are in range and its prefix has no
zone, or if it is not known for another reason. -/
theorem control_codec_iff {libs : Libraries} {env₀ : Env} {localCfg : LocalCfg}
    {cfg : CentralCfg PrefixHealth} {n m : NylonNode T} {tasks : List NodeTask}
    (hstart : bootstrap libs env₀ localCfg cfg = .ok n)
    (hrun : nodeRun libs n tasks = some m) (env : Env) (neigh : NodeId)
    (events : List QueueEvent) (tr : Transport) (safeMTU : Nat) (orders : Nat → PassOrder)
    (w : NyMessage) :
    DeliversQueued D m env neigh events tr safeMTU orders ∧
      (((∀ msg : ControlMsg, msg.encode ≠ w) → handleMessage m env neigh w = .rejected) ↔
        w.InRange ∨ w.Unknown m neigh) := by
  have hvalid := validPrefixes_run hstart hrun
  refine ⟨deliversQueued m env neigh events tr safeMTU orders, ?_⟩
  rw [handleMessage_rejected_iff hvalid]
  constructor
  · intro hreject
    by_cases hrange : w.InRange
    · exact Or.inl hrange
    · apply Or.inr
      apply hreject
      rintro msg rfl
      exact hrange (inRange_encode msg)
  · rintro (hrange | hunknown) hforeign
    · intro p hp
      exact absurd (encode_values hrange hp) (hforeign _)
    · exact hunknown

end Codec

section Sample

/-- The neighbours `a` and `b`, where `b` has the prefix 10.0.1.0/24. -/
def prefixAtB : CentralCfg PrefixHealth :=
  plainConfig 1 [plainRouter "a" 1 [], plainRouter "b" 2
    [.static (some ⟨.v4 0x0A000100, 24, Prefix.bits24_le⟩) 0]] [] ["a, b"]

def updateFromB (seqno : UInt32) : NyMessage :=
  .routeOp ⟨"b", [10, 0, 1, 0, 24], seqno, 10⟩

def plainTransport : Transport where
  size _ := 1
  size_pos _ := Nat.one_pos
  send _ := true

/-- A seqno in range. -/
theorem control_codec_in_range : ∃ n : NylonNode PrefixMap, startPlain prefixAtB = .ok n ∧
      DeliversQueued (ExpiryMap Source UInt16) n (idleEnv 1) "b"
        [.sendAckRetract ⟨.v4 0x0A000100, 24, by decide⟩] plainTransport 1200
        (fun _ => ⟨.stored, .reversed, .stored⟩) ∧
      ((∀ msg : ControlMsg, msg.encode ≠ updateFromB 7) →
        handleMessage n (idleEnv 1) "b" (updateFromB 7) = .rejected) := by
  have hrun : (startPlain prefixAtB).toOption.any (fun _ => true) = true := by
    decide +kernel
  obtain ⟨n, hn, _⟩ := exists_of_any hrun
  have hnone : nodeRun plainLibraries n [] = some n := rfl
  obtain ⟨hqueued, hreject⟩ := control_codec_iff (D := ExpiryMap Source UInt16) hn hnone
    (idleEnv 1) "b" [.sendAckRetract ⟨.v4 0x0A000100, 24, by decide⟩] plainTransport 1200
    (fun _ => ⟨.stored, .reversed, .stored⟩) (updateFromB 7)
  exact ⟨n, hn, hqueued, hreject.mpr (Or.inl (by decide))⟩

/-- The seqno 65536 is accepted as 0. -/
theorem seqno_folded_onto_zero : ∃ n : NylonNode PrefixMap, startPlain prefixAtB = .ok n ∧
      (∀ msg : ControlMsg, msg.encode ≠ updateFromB 65536) ∧
      handleMessage n (idleEnv 1) "b" (updateFromB 65536) =
        .calls (.neighbourUpdate 1 "b" ⟨⟨"b", ⟨.v4 0x0A000100, 24, by decide⟩⟩, ⟨0, 10⟩⟩) := by
  have hrun : (startPlain prefixAtB).toOption.any (fun n =>
      decide (handleMessage n (idleEnv 1) "b" (updateFromB 65536) = .calls (.neighbourUpdate 1 "b"
          ⟨⟨"b", ⟨.v4 0x0A000100, 24, by decide⟩⟩, ⟨0, 10⟩⟩))) = true := by
    decide +kernel
  obtain ⟨n, hn, hcalls⟩ := exists_of_any hrun
  refine ⟨n, hn, fun msg hmsg => ?_, of_decide_eq_true hcalls⟩
  exact absurd (hmsg ▸ inRange_encode msg) (by decide)

end Sample

end Nylon.Core
