import Nylon.Core.NeighIO
import Nylon.Core.SeqnoRequests
import Nylon.Lib.Weights

/-!
Seqno requests in a network. Requests wait in the queues of nodes and are under way
between nodes; a request that is delivered may be forwarded, and is then merged with one
that waits for the same source, keeping the larger hop count. Every request weighs its
hop count, and what is forwarded weighs less than what was delivered, so requests that
nobody makes anew die out.
-/

namespace Nylon.Network

open State Netip Lib Nylon.Core

structure RequestMessage where
  sender : NodeId
  receiver : NodeId
  src : Source
  seqno : UInt16
  hopCnt : UInt8
  deriving DecidableEq, Repr

/-- A node with the prefixes and nodes of its configuration. -/
structure RequestNode (D : Type) where
  router : RouterState
  ios : IOTable D
  prefixes : List Prefix
  nodes : List NodeId

variable {D : Type}

section Model

variable [TTLCache D Source UInt16]

/-- `routerHandleSeqnoRequest`. -/
def RequestNode.handle (ttl now : Time) (node : RequestNode D) (m : RequestMessage) :
    RequestNode D :=
  if (node.router.getNeighbour m.sender).isSome ∧ m.src.pfx ∈ node.prefixes ∧
      m.src.nodeId ∈ node.nodes then
    let out := handleSeqnoRequest node.router now m.sender m.src m.seqno m.hopCnt
    {node with
      router := out.1
      ios := out.2.foldl (IOTable.perform ttl now (out.1.neighbours.map (·.id))) node.ios}
  else node

structure RequestNet (D : Type) where
  nodes : Table NodeId (RequestNode D)
  inFlight : List RequestMessage

/-- Routes, links and neighbours of a node may change in any way between requests. -/
inductive RequestEvent where
  | send (node neigh : NodeId) (src : Source)
  | deliver (m : RequestMessage) (now : Time)
  | lose (m : RequestMessage)
  | reroute (node : NodeId) (router : RouterState)

namespace RequestNet

/-- The request for a source that a node has to send to a neighbour. -/
def pending (net : RequestNet D) (node neigh : NodeId) (src : Source) : Option (UInt16 × UInt8) :=
  ((net.nodes.lookup node).bind fun n => n.ios.lookup neigh).bind fun io => io.seqnoReq.lookup src

def modifyNode (net : RequestNet D) (id : NodeId) (f : RequestNode D → RequestNode D) :
    RequestNet D :=
  match net.nodes.lookup id with
  | none => net
  | some node => {net with nodes := net.nodes.insert id (f node)}

/-- `flushIO` takes the request out of its queue. -/
def dequeue (neigh : NodeId) (src : Source) (node : RequestNode D) : RequestNode D :=
  {node with ios := node.ios.modify neigh fun io =>
    {io with seqnoReq := io.seqnoReq.erase src}}

def step (ttl : Time) (net : RequestNet D) : RequestEvent → RequestNet D
  | .send node neigh src =>
    match net.pending node neigh src with
    | none => net
    | some (seqno, hopCnt) =>
      let sent := net.modifyNode node (dequeue neigh src)
      {sent with inFlight := ⟨node, neigh, src, seqno, hopCnt⟩ :: sent.inFlight}
  | .deliver m now =>
    if m ∈ net.inFlight then
      let taken := {net with inFlight := net.inFlight.erase m}
      taken.modifyNode m.receiver (·.handle ttl now m)
    else net
  | .lose m => {net with inFlight := net.inFlight.erase m}
  | .reroute node router => net.modifyNode node fun n => {n with router := router}

/-- Whether a request is sent, delivered or lost. -/
def Moves (net : RequestNet D) : RequestEvent → Prop
  | .send node neigh src => net.pending node neigh src ≠ none
  | .deliver m _ => m ∈ net.inFlight
  | .lose m => m ∈ net.inFlight
  | .reroute _ _ => False

instance (net : RequestNet D) : (e : RequestEvent) → Decidable (net.Moves e)
  | .send _ _ _ => inferInstanceAs (Decidable (_ ≠ _))
  | .deliver _ _ => inferInstanceAs (Decidable (_ ∈ _))
  | .lose _ => inferInstanceAs (Decidable (_ ∈ _))
  | .reroute _ _ => inferInstanceAs (Decidable False)

/-- How many events of a run move a request. -/
def moves (ttl : Time) : RequestNet D → List RequestEvent → Nat
  | _, [] => 0
  | net, e :: rest => (if net.Moves e then 1 else 0) + moves ttl (net.step ttl e) rest

end RequestNet

end Model

/-- A waiting request weighs more than the same request under way. -/
def requestWeight (req : UInt16 × UInt8) : Nat := 2 * req.2.toNat + 2

def ioWeight (io : IOPending D) : Nat := io.seqnoReq.total requestWeight

def nodeWeight (node : RequestNode D) : Nat := node.ios.total ioWeight

def messageWeight (m : RequestMessage) : Nat := 2 * m.hopCnt.toNat + 1

def RequestNet.weight (net : RequestNet D) : Nat :=
  net.nodes.total nodeWeight + (net.inFlight.map messageWeight).sum

section Weights

variable {ttl now : Time}

theorem total_modifyNode {net : RequestNet D} {id : NodeId} {node : RequestNode D}
    (h : net.nodes.lookup id = some node) (f : RequestNode D → RequestNode D) :
    (net.modifyNode id f).nodes.total nodeWeight + nodeWeight node =
      nodeWeight (f node) + net.nodes.total nodeWeight := by
  have htotal := Table.total_insert nodeWeight net.nodes id (f node)
  unfold Table.weightAt at htotal
  rw [h] at htotal
  unfold RequestNet.modifyNode
  rw [h]
  exact htotal

@[simp] theorem inFlight_modifyNode (net : RequestNet D) (id : NodeId)
    (f : RequestNode D → RequestNode D) : (net.modifyNode id f).inFlight = net.inFlight := by
  unfold RequestNet.modifyNode
  split <;> rfl

theorem total_modifyNode_le (net : RequestNet D) (id : NodeId) {f : RequestNode D → RequestNode D}
    {added : Nat} (h : ∀ node, nodeWeight (f node) ≤ nodeWeight node + added) :
    (net.modifyNode id f).nodes.total nodeWeight ≤ net.nodes.total nodeWeight + added := by
  cases hnode : net.nodes.lookup id with
  | none =>
    unfold RequestNet.modifyNode
    rw [hnode]
    exact Nat.le_add_right _ _
  | some node =>
    have htotal := total_modifyNode hnode f
    have hadded := h node
    omega

theorem weight_mergeRequest (pending : Option (UInt16 × UInt8)) (seqno : UInt16) (hopCnt : UInt8) :
    requestWeight (IOPending.mergeRequest pending seqno hopCnt) ≤
      (pending.map requestWeight).getD 0 + (2 * hopCnt.toNat + 2) := by
  rcases mergeRequest_cases pending seqno hopCnt with h | ⟨req, rfl, h | h⟩
  · rw [h]
    exact Nat.le_add_left _ _
  · rw [h]
    exact Nat.le_add_left _ _
  · rw [h]
    exact Nat.le_add_right _ _

variable [TTLCache D Source UInt16]

theorem ioWeight_requestSeqno (io : IOPending D) (src : Source) (seqno : UInt16) (hopCnt : UInt8) :
    ioWeight (io.requestSeqno ttl now src seqno hopCnt) ≤ ioWeight io + (2 * hopCnt.toNat + 2) := by
  have henqueue : ∀ maxSeq, ioWeight (io.enqueueRequest ttl now src seqno maxSeq hopCnt) ≤
      ioWeight io + (2 * hopCnt.toNat + 2) := by
    intro maxSeq
    have hmerge := weight_mergeRequest (io.seqnoReq.lookup src) seqno hopCnt
    have htotal := Table.total_insert requestWeight io.seqnoReq src
      (IOPending.mergeRequest (io.seqnoReq.lookup src) seqno hopCnt)
    unfold Table.weightAt at htotal
    change Table.total requestWeight (io.seqnoReq.insert src _) ≤ _
    unfold ioWeight
    omega
  unfold IOPending.requestSeqno
  split
  · exact henqueue seqno
  · split
    · exact Nat.le_add_right _ _
    · exact henqueue _

theorem total_modify (ios : IOTable D) (neigh : NodeId) {f : IOPending D → IOPending D} {added : Nat}
    (h : ∀ io, ioWeight (f io) ≤ ioWeight io + added) :
    (ios.modify neigh f).total ioWeight ≤ ios.total ioWeight + added := by
  have htotal := Table.total_insert ioWeight ios neigh (f (ios.getNeighIO neigh))
  have hold : ioWeight (ios.getNeighIO neigh) = Table.weightAt ioWeight ios neigh := by
    unfold IOTable.getNeighIO Table.weightAt
    cases ios.lookup neigh <;> rfl
  have hnew := h (ios.getNeighIO neigh)
  change Table.total ioWeight (ios.insert neigh _) ≤ _
  omega

/-- What a call adds at most, at a node with the given number of neighbours. -/
def callWeight (neighbours : Nat) : RouterCall → Nat
  | .requestSeqno _ _ _ hopCnt => 2 * hopCnt.toNat + 2
  | .broadcastRequestSeqno _ _ hopCnt => neighbours * (2 * hopCnt.toNat + 2)
  | _ => 0

theorem total_foldl_modify {f : IOPending D → IOPending D} {added : Nat}
    (h : ∀ io, ioWeight (f io) ≤ ioWeight io + added) (neighbours : List NodeId)
    (ios : IOTable D) :
    (neighbours.foldl (fun ios neigh => ios.modify neigh f) ios).total ioWeight ≤
      ios.total ioWeight + neighbours.length * added := by
  induction neighbours generalizing ios with
  | nil => exact Nat.le_add_right _ _
  | cons neigh rest ih =>
    have hfirst := total_modify ios neigh h
    have hrest := ih (ios.modify neigh f)
    rw [List.length_cons, Nat.add_mul]
    simp only [List.foldl_cons]
    omega

theorem total_perform (ttl now : Time) (neighbours : List NodeId) (ios : IOTable D) (call : RouterCall) :
    (ios.perform ttl now neighbours call).total ioWeight ≤
      ios.total ioWeight + callWeight neighbours.length call := by
  cases call with
  | sendRouteUpdate neigh advRoute => exact total_modify ios neigh fun io => Nat.le_refl _
  | sendAckRetract neigh pfx => exact total_modify ios neigh fun io => Nat.le_refl _
  | broadcastSendRouteUpdate advRoute =>
    have hsame : ∀ io : IOPending D, ioWeight (io.sendRouteUpdate advRoute) ≤ ioWeight io + 0 :=
      fun io => Nat.le_refl _
    have h := total_foldl_modify hsame neighbours ios
    rwa [Nat.mul_zero] at h
  | requestSeqno neigh src seqno hopCnt =>
    exact total_modify ios neigh fun io => ioWeight_requestSeqno io src seqno hopCnt
  | broadcastRequestSeqno src seqno hopCnt =>
    exact total_foldl_modify (fun io => ioWeight_requestSeqno io src seqno hopCnt) neighbours ios
  | tableInsertRoute pfx route => exact Nat.le_refl _
  | tableDeleteRoute pfx => exact Nat.le_refl _

theorem total_foldl_perform (ttl now : Time) (neighbours : List NodeId) (calls : List RouterCall)
    (ios : IOTable D) :
    (calls.foldl (IOTable.perform ttl now neighbours) ios).total ioWeight ≤
      ios.total ioWeight + (calls.map (callWeight neighbours.length)).sum := by
  induction calls generalizing ios with
  | nil => exact Nat.le_refl _
  | cons call rest ih =>
    have hfirst := total_perform ttl now neighbours ios call
    have hrest := ih (ios.perform ttl now neighbours call)
    rw [List.map_cons, List.sum_cons]
    simp only [List.foldl_cons]
    omega

def actionWeight : SeqnoAction → Nat
  | .forward _ hops => 2 * hops.toNat + 2
  | _ => 0

theorem callWeight_computeRoutes (s : RouterState) (now : Time) (neighbours : Nat) :
    ((computeRoutes s now).2.map (callWeight neighbours)).sum = 0 := by
  apply List.sum_eq_zero
  intro weight hweight
  obtain ⟨call, hcall, rfl⟩ := List.mem_map.mp hweight
  rcases computeRoutes_call_cases hcall with ⟨u, rfl⟩ | ⟨p, r, rfl⟩ <;> rfl

theorem callWeight_foldl_perform (now : Time) (fromNeigh : NodeId) (src : Source) (reqSeqno : UInt16)
    (neighbours : Nat) (actions : List SeqnoAction) (out : Out) :
    ((actions.foldl (SeqnoAction.perform fromNeigh src reqSeqno now) out).2.map
        (callWeight neighbours)).sum =
      (out.2.map (callWeight neighbours)).sum + (actions.map actionWeight).sum := by
  induction actions generalizing out with
  | nil => rfl
  | cons action rest ih =>
    rw [List.foldl_cons, ih, List.map_cons, List.sum_cons, ← Nat.add_assoc]
    congr 1
    cases action with
    | answer route => simp [SeqnoAction.perform, callWeight, actionWeight]
    | raise pfx seqno =>
      simp [SeqnoAction.perform, callWeight_computeRoutes, actionWeight]
    | forward nh hops => simp [SeqnoAction.perform, callWeight, actionWeight]

theorem actionWeight_requestActions (s : RouterState) (fromNeigh : NodeId) (src : Source)
    (reqSeqno : UInt16) (hopCnt : UInt8) :
    ((requestActions s fromNeigh src reqSeqno hopCnt).map actionWeight).sum ≤ 2 * hopCnt.toNat := by
  have hnewer : ∀ selRoute, ((newerActions s fromNeigh src reqSeqno hopCnt selRoute).map
      actionWeight).sum ≤ 2 * hopCnt.toNat := by
    intro selRoute
    unfold newerActions
    split
    · exact Nat.zero_le _
    · split
      · next hhops =>
          have hone : (1 : UInt8) ≤ hopCnt := UInt8.le_trans (by decide) hhops
          have htwo : 2 ≤ hopCnt.toNat := UInt8.le_iff_toNat_le.mp hhops
          cases forwardTarget (answerRequest s fromNeigh src reqSeqno selRoute).1 fromNeigh src with
          | none => exact Nat.zero_le _
          | some nh =>
            change 2 * (hopCnt - 1).toNat + 2 + 0 ≤ _
            rw [UInt8.toNat_sub_of_le _ _ hone]
            change 2 * (hopCnt.toNat - 1) + 2 + 0 ≤ _
            omega
      · exact Nat.zero_le _
  unfold requestActions
  cases s.routes.lookup src.pfx with
  | none => exact Nat.zero_le _
  | some selRoute =>
    dsimp only
    rw [List.map_append, List.sum_append]
    have hanswer : ((if answersRequest selRoute src reqSeqno = true then
        [SeqnoAction.answer selRoute.toPubRoute] else []).map actionWeight).sum = 0 := by
      split <;> rfl
    rw [hanswer, Nat.zero_add]
    split
    · exact hnewer selRoute
    · exact Nat.zero_le _

/-- What a node forwards weighs less than what it was sent. -/
theorem nodeWeight_handle (ttl now : Time) (node : RequestNode D) (m : RequestMessage) :
    nodeWeight (node.handle ttl now m) ≤ nodeWeight node + 2 * m.hopCnt.toNat := by
  unfold RequestNode.handle
  split
  · have hcalls := handleSeqnoRequest_eq_actions node.router m.sender m.src m.seqno m.hopCnt now
    have hperform := total_foldl_perform ttl now
      ((handleSeqnoRequest node.router now m.sender m.src m.seqno m.hopCnt).1.neighbours.map
        (·.id))
      (handleSeqnoRequest node.router now m.sender m.src m.seqno m.hopCnt).2 node.ios
    have hweight := callWeight_foldl_perform now m.sender m.src m.seqno
      ((handleSeqnoRequest node.router now m.sender m.src m.seqno m.hopCnt).1.neighbours.map
        (·.id)).length
      (requestActions node.router m.sender m.src m.seqno m.hopCnt) (node.router, [])
    have hactions :=
      actionWeight_requestActions node.router m.sender m.src m.seqno m.hopCnt
    rw [← hcalls] at hweight
    change ((handleSeqnoRequest node.router now m.sender m.src m.seqno m.hopCnt).2.foldl _
      node.ios).total ioWeight ≤ node.ios.total ioWeight + _
    simp only [List.map_nil, List.sum_nil, Nat.zero_add] at hweight
    omega
  · exact Nat.le_add_right _ _

theorem nodeWeight_dequeue {node : RequestNode D} {neigh : NodeId} {src : Source}
    {io : IOPending D} {req : UInt16 × UInt8} (hio : node.ios.lookup neigh = some io)
    (hreq : io.seqnoReq.lookup src = some req) :
    nodeWeight (RequestNet.dequeue neigh src node) + requestWeight req = nodeWeight node := by
  have hget : node.ios.getNeighIO neigh = io := by
    unfold IOTable.getNeighIO
    rw [hio]
    rfl
  obtain ⟨io', hio'⟩ : ∃ io' : IOPending D, io' = {io with seqnoReq := io.seqnoReq.erase src} :=
    ⟨_, rfl⟩
  have hweight : ioWeight io' = Table.total requestWeight (io.seqnoReq.erase src) := by
    rw [hio']
    rfl
  have hinsert := Table.total_insert ioWeight node.ios neigh io'
  have herase : _ = ioWeight io := Table.total_erase requestWeight io.seqnoReq src
  unfold Table.weightAt at hinsert herase
  rw [hio] at hinsert
  rw [hreq] at herase
  simp only [Option.map_some, Option.getD_some] at hinsert herase
  change Table.total ioWeight (node.ios.insert neigh
    {node.ios.getNeighIO neigh with
      seqnoReq := (node.ios.getNeighIO neigh).seqnoReq.erase src}) + _ =
    Table.total ioWeight node.ios
  rw [hget, ← hio']
  omega

theorem sum_erase_message {m : RequestMessage} {messages : List RequestMessage} (h : m ∈ messages) :
    ((messages.erase m).map messageWeight).sum + messageWeight m =
      (messages.map messageWeight).sum := by
  have hperm := ((List.perm_cons_erase h).map messageWeight).sum_nat
  rw [List.map_cons, List.sum_cons] at hperm
  omega

/-- Every request that moves makes the network lighter. -/
theorem weight_step (ttl : Time) (net : RequestNet D) (e : RequestEvent) :
    (net.step ttl e).weight + (if net.Moves e then 1 else 0) ≤ net.weight := by
  unfold RequestNet.weight
  cases e with
  | send node neigh src =>
    cases hpending : net.pending node neigh src with
    | none => simp [RequestNet.step, RequestNet.Moves, hpending]
    | some req =>
      obtain ⟨seqno, hopCnt⟩ := req
      obtain ⟨io, hio, hreq⟩ := Option.bind_eq_some_iff.mp hpending
      obtain ⟨n, hn, hio⟩ := Option.bind_eq_some_iff.mp hio
      have hnode := total_modifyNode hn (RequestNet.dequeue neigh src)
      have hdequeue := nodeWeight_dequeue hio hreq
      have hmoves : net.Moves (.send node neigh src) := by
        change net.pending node neigh src ≠ none
        rw [hpending]
        exact Option.some_ne_none _
      rw [if_pos hmoves]
      simp only [RequestNet.step, hpending, inFlight_modifyNode, List.map_cons, List.sum_cons]
      simp only [requestWeight, messageWeight] at hdequeue ⊢
      omega
  | deliver m now =>
    by_cases hm : m ∈ net.inFlight
    · have herase := sum_erase_message hm
      have hhandle : _ ≤ Table.total nodeWeight net.nodes + _ :=
        total_modifyNode_le {net with inFlight := net.inFlight.erase m} m.receiver
          fun node => nodeWeight_handle ttl now node m
      have hmoves : net.Moves (.deliver m now) := hm
      rw [if_pos hmoves]
      simp only [RequestNet.step, if_pos hm, inFlight_modifyNode]
      simp only [messageWeight] at herase
      omega
    · have hstay : ¬ net.Moves (.deliver m now) := hm
      rw [if_neg hstay]
      simp [RequestNet.step, hm]
  | lose m =>
    by_cases hm : m ∈ net.inFlight
    · have herase := sum_erase_message hm
      have hmoves : net.Moves (.lose m) := hm
      rw [if_pos hmoves]
      simp only [RequestNet.step]
      simp only [messageWeight] at herase
      omega
    · have hstay : ¬ net.Moves (.lose m) := hm
      rw [if_neg hstay]
      simp [RequestNet.step, List.erase_of_not_mem hm]
  | reroute node router =>
    have hsame : _ ≤ Table.total nodeWeight net.nodes + 0 :=
      total_modifyNode_le net node (f := fun n => {n with router := router}) fun n => Nat.le_refl _
    have hstay : ¬ net.Moves (.reroute node router) := id
    rw [if_neg hstay]
    simp only [RequestNet.step, inFlight_modifyNode]
    omega

theorem moves_le_weight (ttl : Time) (net : RequestNet D) (events : List RequestEvent) :
    RequestNet.moves ttl net events ≤ net.weight := by
  induction events generalizing net with
  | nil => exact Nat.zero_le _
  | cons e rest ih =>
    have hstep := weight_step ttl net e
    have hrest := ih (net.step ttl e)
    unfold RequestNet.moves
    omega

end Weights

/-- In every run at most as many requests move as the network weighs at its start. A
node forwards a request with one hop less, and well. -/
theorem seqno_requests_die_out [TTLCache D Source UInt16] (ttl : Time) (net : RequestNet D) :
    (∀ events, RequestNet.moves ttl net events ≤ net.weight) ∧
    ∀ (s : RouterState) (now : Time) (m : RequestMessage) (nh : NodeId) (src : Source)
      (seqno : UInt16) (hops : UInt8),
      .requestSeqno nh src seqno hops ∈
        (handleSeqnoRequest s now m.sender m.src m.seqno m.hopCnt).2 →
      (src = m.src ∧ seqno = m.seqno ∧ 2 ≤ m.hopCnt ∧ hops = m.hopCnt - 1) ∧
        ForwardsWell (handleSeqnoRequest s now m.sender m.src m.seqno m.hopCnt).1 m.sender
          m.src nh := by
  refine ⟨moves_le_weight ttl net, ?_⟩
  intro s now m nh src seqno hops h
  exact handleSeqnoRequest_forwards h

section Sample

def wanted : Source := ⟨"d", samplePrefix⟩

/-- A node with the neighbours `a` and `c`, and routes of the source through both. -/
def betweenRouter : RouterState :=
  {RouterState.init defaultRouterTunables "b" with
    routes := AList.insert samplePrefix ⟨⟨wanted, ⟨1, 10⟩⟩, "c", 0, []⟩ ∅
    neighbours := [ ⟨"a", AList.insert samplePrefix ⟨⟨wanted, ⟨1, 8⟩⟩, 0, 0⟩ ∅, true, 1⟩,
      ⟨"c", AList.insert samplePrefix ⟨⟨wanted, ⟨1, 5⟩⟩, 0, 0⟩ ∅, true, 1⟩]}

def requestFromA : RequestMessage := ⟨"a", "b", wanted, 2, 3⟩

def betweenNet : RequestNet (ExpiryMap Source UInt16) :=
  ⟨AList.insert "b" ⟨betweenRouter, ∅, [samplePrefix], ["d"]⟩ ∅, [requestFromA]⟩

/-- The request is forwarded to the other neighbour, and lost on its way. -/
theorem seqno_requests_die_out_forwarded :
    RequestNet.moves 0 betweenNet [.deliver requestFromA 0, .send "b" "c" wanted,
        .lose ⟨"b", "c", wanted, 2, 2⟩] = 3 ∧
      RequestNet.moves 0 betweenNet [.deliver requestFromA 0, .send "b" "c" wanted,
        .lose ⟨"b", "c", wanted, 2, 2⟩] ≤ betweenNet.weight ∧
      ForwardsWell (handleSeqnoRequest betweenRouter 0 "a" wanted 2 3).1 "a" wanted "c" := by
  obtain ⟨hmoves, hforwards⟩ := seqno_requests_die_out 0 betweenNet
  refine ⟨by decide +kernel, hmoves _, ?_⟩
  exact (hforwards betweenRouter 0 requestFromA "c" wanted 2 2 (by decide +kernel)).2

end Sample

end Nylon.Network
