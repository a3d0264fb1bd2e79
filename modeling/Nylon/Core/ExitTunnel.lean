import Nylon.Core.ExitDecap
import Nylon.State.NodeIdMap

/-!
The tunnel to an exit node. A packet is wrapped at its origin and then handled at one
node after the other, each of which receives it with the padding of the transport and
cuts that off again. Whatever the nodes know, a packet on its way carries the same
label, traffic class, bottom-of-stack bit and inner bytes, its TTL counts the forwards
down, and the node of its label gets the inner bytes back.
-/

namespace Nylon.Core

open State Netip Lib Polyamide

/-- A frame of nylon around a label-stack entry and what follows it. -/
structure Carries (frame : List UInt8) (lse : MplsLse) (inner : List UInt8) : Prop where
  version : ipVersion frame = nyUnicastProtoId
  long : exitHeaderLen ≤ frame.length
  length : beNat ((frame.take 3).drop 1) + polyHeaderSize = frame.length
  small : frame.length < 2 ^ 16
  outer : outerLse frame = lse
  rest : frame.drop exitHeaderLen = inner

/-- A node that handles a frame: what it knows, where the frame comes from, and the
bytes around the frame in the buffer it is received in. -/
structure Hop (Peer : Type) where
  snap : ExitFilterSnapshot Peer
  fromPeer : Option Peer
  padding : List UInt8
  spare : List UInt8

variable {Peer : Type}

def Hop.element (hop : Hop Peer) (packet : Packet) : TCElement Peer Unit :=
  ⟨packet, none, none, hop.fromPeer, none, .normal, 0⟩

/-- A node trims a received frame to its length field and handles it. -/
def Hop.handle (hop : Hop Peer) (frame : List UInt8) : Go (FilterResult Peer Unit Unit) := do
  let (parsed, packet) ← Packet.parsePacket ⟨frame ++ hop.padding, hop.spare⟩
  if parsed then handleMplsPacket hop.snap (hop.element packet)
  else return .of .drop (hop.element packet)

inductive Fate where
  | inTransit
  | dropped
  | delivered (bytes : List UInt8) (proto : UInt16)
  deriving DecidableEq, Repr

/-- The frames a packet was forwarded as, and what became of it. -/
structure Journey where
  forwards : List (List UInt8)
  fate : Fate
  deriving DecidableEq, Repr

/-- A frame is handled at one node after the other as long as it is forwarded. -/
def travel : List (Hop Peer) → List UInt8 → Go Journey
  | [], _ => return ⟨[], .inTransit⟩
  | hop :: rest, frame => do
    let result ← hop.handle frame
    let bytes := result.elem.packet.data
    match result.action with
    | .forward =>
      let journey ← travel rest bytes
      return {journey with forwards := bytes :: journey.forwards}
    | .bounce => return ⟨[], .delivered bytes result.elem.l3Proto⟩
    | _ => return ⟨[], .dropped⟩

/-- Both frames have the same label, traffic class, bottom-of-stack bit and inner
bytes. -/
structure SameContent (frame frame' : List UInt8) : Prop where
  label : (outerLse frame').label = (outerLse frame).label
  tc : (outerLse frame').tc = (outerLse frame).tc
  bos : (outerLse frame').bos = (outerLse frame).bos
  inner : frame'.drop exitHeaderLen = frame.drop exitHeaderLen

/-- The packet is forwarded at most as often as its TTL says, with its content. -/
structure Travels (hops : List (Hop Peer)) (frame : List UInt8) (journey : Journey) : Prop where
  travels : travel hops frame = .ok journey
  bounded : journey.forwards.length ≤ (outerLse frame).ttl.toNat
  unchanged : ∀ frame' ∈ journey.forwards, SameContent frame frame'

/-- Nothing else than the given bytes is handed to a local stack, and they are as soon
as the packet comes to the node of its label with TTL left and exit service on. -/
structure Delivers (hops : List (Hop Peer)) (frame : List UInt8) (journey : Journey)
    (bytes : List UInt8) (proto : UInt16) : Prop where
  only : ∀ bytes' proto', journey.fate = .delivered bytes' proto' → bytes' = bytes ∧ proto' = proto
  reached : ∀ front hop back, hops = front ++ hop :: back →
    (∃ before, travel front frame = .ok before ∧ before.fate = .inTransit) →
    front.length < (outerLse frame).ttl.toNat →
    hop.snap.localIdNumeric = (outerLse frame).label →
    hop.snap.advertiseExitNode = true →
    journey.fate = .delivered bytes proto

theorem outerLse_overwrite_ttl {frame : List UInt8} (h : exitHeaderLen ≤ frame.length)
    (ttl : UInt8) :
    outerLse (Slice.overwrite frame 7 [ttl]) = {outerLse frame with ttl := ttl} := by
  match frame, h with
  | a₀ :: a₁ :: a₂ :: a₃ :: b₀ :: b₁ :: b₂ :: b₃ :: rest, _ =>
    change decodeMplsLse [b₀, b₁, b₂, ttl] = {decodeMplsLse [b₀, b₁, b₂, b₃] with ttl := ttl}
    rw [decodeMplsLse_bytes, decodeMplsLse_bytes]

section Frames

variable {frame : List UInt8} {lse : MplsLse} {inner : List UInt8}

theorem Carries.forwarded (h : Carries frame lse inner) (ttl : UInt8) :
    Carries (Slice.overwrite frame 7 [ttl]) {lse with ttl := ttl} inner := by
  have hlong : 7 + [ttl].length ≤ frame.length := h.long
  have hlength : (Slice.overwrite frame 7 [ttl]).length = frame.length :=
    Slice.length_overwrite hlong
  have hfront : ∀ n ≤ 7, (Slice.overwrite frame 7 [ttl]).take n = frame.take n :=
    fun n hn => Slice.overwrite_take [ttl] (by simp at hlong; omega) hn
  constructor
  case version =>
    unfold ipVersion
    rw [Slice.overwrite_headD [ttl] (by decide) (by simp at hlong; omega)]
    exact h.version
  case long => rw [hlength]; exact h.long
  case length => rw [hfront 3 (by decide), hlength]; exact h.length
  case small => rw [hlength]; exact h.small
  case outer => rw [outerLse_overwrite_ttl h.long, h.outer]
  case rest =>
    have hbehind : 7 + [ttl].length ≤ exitHeaderLen := Nat.le_refl 8
    rw [Slice.overwrite_drop hlong hbehind]
    exact h.rest

/-- A receiver cuts the padding off. -/
theorem Carries.parsePacket (h : Carries frame lse inner) (padding spare : List UInt8) :
    ∃ q, Packet.parsePacket ⟨frame ++ padding, spare⟩ = .ok (true, q) ∧ q.data = frame := by
  have hlong : 8 ≤ frame.length := h.long
  obtain ⟨p, hp⟩ : ∃ p : Packet, p = ⟨frame ++ padding, spare⟩ := ⟨_, rfl⟩
  have hall : p.all = frame ++ (padding ++ spare) := by
    rw [hp, Slice.all, List.append_assoc]
  have hlen : p.len = frame.length + padding.length := by
    rw [hp, Slice.len, List.length_append]
  have hversion : p.version = nyUnicastProtoId := by
    rw [← h.version]
    unfold Packet.version ipVersion
    rw [hall]
    cases frame with
    | nil => simp at hlong
    | cons first rest => rfl
  have hheader : p.HasHeader := by
    unfold Packet.HasHeader
    rw [hversion, hlen]
    exact Nat.le_trans (by decide) (Nat.le_add_right_of_le hlong)
  have htotal : p.totalLength.toNat = frame.length := by
    have hlength := h.length
    have hsmall := h.small
    unfold Packet.totalLength
    rw [hversion, if_neg (by decide), if_neg (by decide), hall,
      List.take_append_of_le_length (by omega), UInt16.toNat_add, be16, UInt16.toNat_ofNat']
    change (beNat ((frame.take 3).drop 1) % 2 ^ 16 + 3) % 2 ^ 16 = _
    simp only [polyHeaderSize] at hlength
    omega
  have hparse : p.parsePacket = .ok (true, p.trimmed) := by
    unfold Packet.parsePacket
    rw [if_neg (by omega), Packet.parseLength_eq, if_pos ⟨hheader, by omega⟩]
  refine ⟨p.trimmed, hp ▸ hparse, ?_⟩
  unfold Packet.trimmed
  rw [htotal, hall]
  exact List.take_left

/-- What a node does with a frame. -/
theorem Hop.handle_cases (hop : Hop Peer) (h : Carries frame lse inner) :
    ∃ result, hop.handle frame = .ok result ∧
      ((lse.ttl ≠ 0 ∧ lse.label ≠ hop.snap.localIdNumeric ∧ result.action = .forward ∧
          Carries result.elem.packet.data {lse with ttl := lse.ttl - 1} inner) ∨
        (lse.ttl ≠ 0 ∧ lse.label = hop.snap.localIdNumeric ∧
          Terminates hop.snap lse.bos inner ∧ result.action = .bounce ∧
          result.elem.packet.data = deliveredBytes lse.bos inner ∧
          result.elem.l3Proto = deliveredProto lse.bos 0) ∨
        (result.action = .drop ∧ (lse.ttl ≠ 0 → lse.label = hop.snap.localIdNumeric →
          ¬ Terminates hop.snap lse.bos inner))) := by
  obtain ⟨packet, hparse, hdata⟩ := h.parsePacket hop.padding hop.spare
  have hlen : exitHeaderLen ≤ (hop.element packet).packet.len := by
    change exitHeaderLen ≤ packet.data.length
    rw [hdata]
    exact h.long
  have hver : ipVersion (hop.element packet).packet.data = nyUnicastProtoId := by
    change ipVersion packet.data = _
    rw [hdata]
    exact h.version
  unfold Hop.handle
  rw [hparse, Go.ok_bind]
  dsimp only
  rw [if_pos rfl, handleMplsPacket_eq hver hlen]
  have hpacket : (hop.element packet).packet.data = frame := hdata
  rw [hpacket, h.outer, h.rest, handleMplsLse]
  by_cases httl : lse.ttl = 0
  · rw [if_pos httl]
    exact ⟨_, rfl, Or.inr (Or.inr ⟨rfl, fun hne => absurd httl hne⟩)⟩
  rw [if_neg httl]
  by_cases hlabel : lse.label = hop.snap.localIdNumeric
  · rw [if_neg (not_not.mpr hlabel)]
    have hrest : inner.length ≤ (hop.element packet).packet.len := by
      change inner.length ≤ packet.data.length
      rw [hdata, ← h.rest, List.length_drop]
      exact Nat.sub_le _ _
    rcases @handleMplsTerminal_cases _ _ Unit hop.snap (hop.element packet) lse.bos _ hrest with
      ⟨hterminates, q, hq, hbytes⟩ | ⟨hdropped, err, herr⟩
    · exact ⟨_, hq, Or.inr (Or.inl ⟨httl, hlabel, hterminates, rfl, hbytes, rfl⟩)⟩
    · exact ⟨_, herr, Or.inr (Or.inr ⟨rfl, fun _ _ => hdropped⟩)⟩
  · rw [if_pos hlabel]
    rcases @handleMplsTransit_cases _ _ Unit hop.snap (hop.element packet) lse hlen with
      ⟨peer, _, q, hq, hbytes⟩ | ⟨_, err, herr⟩
    · refine ⟨_, hq, Or.inl ⟨httl, hlabel, rfl, ?_⟩⟩
      change Carries q.data _ _
      rw [hbytes, hpacket]
      exact h.forwarded _
    · exact ⟨_, herr, Or.inr (Or.inr ⟨rfl, fun _ heq => absurd heq hlabel⟩)⟩

theorem Carries.sameContent {frame' : List UInt8} {ttl : UInt8} (h : Carries frame lse inner)
    (h' : Carries frame' {lse with ttl := ttl} inner) : SameContent frame frame' := by
  constructor
  case label => rw [h'.outer, h.outer]
  case tc => rw [h'.outer, h.outer]
  case bos => rw [h'.outer, h.outer]
  case inner => rw [h'.rest, h.rest]

section Travel

variable {hop : Hop Peer} {rest : List (Hop Peer)} {result : FilterResult Peer Unit Unit}

theorem travel_forward (hresult : hop.handle frame = .ok result)
    (haction : result.action = .forward) :
    travel (hop :: rest) frame = (do
      let journey ← travel rest result.elem.packet.data
      return {journey with forwards := result.elem.packet.data :: journey.forwards}) := by
  rw [travel, hresult, Go.ok_bind]
  simp only [haction]

theorem travel_bounce (hresult : hop.handle frame = .ok result) (haction : result.action = .bounce) :
    travel (hop :: rest) frame =
      .ok ⟨[], .delivered result.elem.packet.data result.elem.l3Proto⟩ := by
  rw [travel, hresult, Go.ok_bind]
  simp only [haction]
  rfl

theorem travel_drop (hresult : hop.handle frame = .ok result) (haction : result.action = .drop) :
    travel (hop :: rest) frame = .ok ⟨[], .dropped⟩ := by
  rw [travel, hresult, Go.ok_bind]
  simp only [haction]
  rfl

end Travel

/-- The journey of a frame. The induction is on the nodes; every forward takes one of
the TTL and leaves a frame with the same content. -/
theorem Carries.journey (hops : List (Hop Peer)) (h : Carries frame lse inner) :
    ∃ journey, travel hops frame = .ok journey ∧ journey.forwards.length ≤ lse.ttl.toNat ∧
      (∀ frame' ∈ journey.forwards, ∃ ttl, Carries frame' {lse with ttl := ttl} inner) ∧
      (∀ bytes proto, journey.fate = .delivered bytes proto →
        bytes = deliveredBytes lse.bos inner ∧ proto = deliveredProto lse.bos 0) ∧
      (∀ front hop back, hops = front ++ hop :: back →
        (∃ before, travel front frame = .ok before ∧ before.fate = .inTransit) →
        front.length < lse.ttl.toNat → hop.snap.localIdNumeric = lse.label →
        Terminates hop.snap lse.bos inner →
        journey.fate = .delivered (deliveredBytes lse.bos inner) (deliveredProto lse.bos 0)) := by
  induction hops generalizing frame lse with
  | nil => exact ⟨⟨[], .inTransit⟩, rfl, Nat.zero_le _, by simp, by simp, by simp⟩
  | cons first rest ih =>
    obtain ⟨result, hresult, ⟨httl, hlabel, haction, hcarries⟩ |
      ⟨httl, hlabel, hterminates, haction, hbytes, hproto⟩ | ⟨haction, hdropped⟩⟩ :=
      first.handle_cases h
    · obtain ⟨journey, hjourney, hbounded, hunchanged, honly, hreached⟩ := ih hcarries
      have hpos : lse.ttl.toNat ≠ 0 := fun hzero => httl (UInt8.toNat_inj.mp hzero)
      simp only [toNat_sub_one (Nat.pos_of_ne_zero hpos)] at hbounded hreached
      rw [travel_forward hresult haction, hjourney, Go.ok_bind]
      refine ⟨_, rfl, ?_, List.forall_mem_cons.mpr ⟨⟨_, hcarries⟩, hunchanged⟩, honly, ?_⟩
      · simp only [List.length_cons]
        omega
      · intro front hop back hsplit hbefore hleft hlocal hterminates
        cases front with
        | nil =>
          obtain ⟨rfl, _⟩ := List.cons.inj hsplit
          exact absurd hlocal.symm hlabel
        | cons hop' front =>
          obtain ⟨rfl, hrest⟩ := List.cons.inj hsplit
          obtain ⟨before, hbefore, htransit⟩ := hbefore
          rw [travel_forward hresult haction] at hbefore
          obtain ⟨before', hbefore', heq⟩ := bind_eq_ok hbefore
          obtain rfl := Except.ok.inj heq
          simp only [List.length_cons] at hleft
          exact hreached front hop back hrest ⟨before', hbefore', htransit⟩ (by omega) hlocal
            hterminates
    · rw [travel_bounce hresult haction, hbytes, hproto]
      refine ⟨_, rfl, Nat.zero_le _, by simp, ?_, fun _ _ _ _ _ _ _ _ => rfl⟩
      intro bytes proto hfate
      obtain ⟨rfl, rfl⟩ := Fate.delivered.inj hfate
      exact ⟨rfl, rfl⟩
    · rw [travel_drop hresult haction]
      refine ⟨_, rfl, Nat.zero_le _, by simp, by simp, ?_⟩
      intro front hop back hsplit hbefore hleft hlocal hterminates
      cases front with
      | nil =>
        obtain ⟨rfl, _⟩ := List.cons.inj hsplit
        refine absurd hterminates (hdropped ?_ hlocal.symm)
        intro hzero
        simp [hzero] at hleft
      | cons hop' front =>
        obtain ⟨rfl, _⟩ := List.cons.inj hsplit
        obtain ⟨before, hbefore, htransit⟩ := hbefore
        rw [travel_drop hresult haction] at hbefore
        obtain rfl := Except.ok.inj hbefore
        cases htransit

/-- What is delivered is the inner packet, if that is a well-formed IP packet or a
label stack. -/
theorem Carries.delivers (hops : List (Hop Peer)) (h : Carries frame lse inner) :
    ∃ journey, Travels hops frame journey ∧
      (lse.bos = true → WellFormedIP inner → Delivers hops frame journey inner 0) ∧
      (lse.bos = false → mplsLseLen ≤ inner.length →
        Delivers hops frame journey inner ethPMplsUnicast) := by
  obtain ⟨journey, hjourney, hbounded, hunchanged, honly, hreached⟩ := h.journey hops
  have hdelivers : ∀ {bytes proto}, deliveredBytes lse.bos inner = bytes →
      deliveredProto lse.bos 0 = proto →
      (if lse.bos then HasIPHeader inner else mplsLseLen ≤ inner.length) →
      Delivers hops frame journey bytes proto := by
    rintro _ _ rfl rfl hinner
    refine ⟨honly, ?_⟩
    intro front hop back hsplit hbefore hleft hlocal hadvertises
    rw [h.outer] at hleft hlocal
    exact hreached front hop back hsplit hbefore hleft hlocal ⟨hadvertises, hinner⟩
  refine ⟨journey, ⟨hjourney, ?_, ?_⟩, ?_, ?_⟩
  · rw [h.outer]
    exact hbounded
  · intro frame' hmem
    obtain ⟨ttl, hcarries⟩ := hunchanged frame' hmem
    exact h.sameContent hcarries
  · intro hbos hip
    have hsmall : inner.length < 2 ^ 16 := by
      rw [← h.rest, List.length_drop]
      exact Nat.lt_of_le_of_lt (Nat.sub_le _ _) h.small
    refine hdelivers ?_ (by rw [hbos]; rfl) (by rw [hbos, if_pos rfl]; exact hip.header)
    rw [hbos, deliveredBytes, if_pos rfl, ← hip.length, Nat.mod_eq_of_lt hsmall, List.take_length]
  · intro hbos hstack
    exact hdelivers (by rw [hbos]; rfl) (by rw [hbos]; rfl)
      (by rw [hbos, if_neg Bool.false_ne_true]; exact hstack)

end Frames

/-- The frame with the given number of bytes behind its header. -/
theorem carries_frame (first : UInt8) (len : UInt16) (subtype b₀ b₁ b₂ b₃ : UInt8)
    (inner : List UInt8) (hfirst : (first >>> 4).toNat = nyUnicastProtoId)
    (hlen : len.toNat + polyHeaderSize = exitHeaderLen + inner.length)
    (hsmall : exitHeaderLen + inner.length < 2 ^ 16) :
    Carries (first :: put16 len ++ subtype :: b₀ :: b₁ :: b₂ :: b₃ :: inner)
      (decodeMplsLse [b₀, b₁, b₂, b₃]) inner := by
  have hlength : (first :: put16 len ++
      subtype :: b₀ :: b₁ :: b₂ :: b₃ :: inner).length = exitHeaderLen + inner.length := by
    simp only [put16, List.cons_append, List.nil_append, List.length_cons, exitHeaderLen,
      polyHeaderSize, nyUnicastHeaderSize, mplsLseLen]
    omega
  constructor
  case version => exact hfirst
  case long => rw [hlength]; exact Nat.le_add_right _ _
  case length =>
    rw [hlength, ← hlen]
    exact congrArg (· + polyHeaderSize) (beNat_put16 len)
  case small => rw [hlength]; exact hsmall
  case outer => rfl
  case rest => rfl

/-- Wrapping puts the headers in front of the packet. -/
theorem wrapExitPacket_carries {packet : Packet} {exit : NodeIdNumeric} (hexit : IsLabel exit)
    (hfits : exitHeaderLen + packet.len ≤ packet.all.length)
    (hsmall : exitHeaderLen + packet.len < 2 ^ 16) :
    ∃ wrapped, wrapExitPacket packet exit = .ok (.ok wrapped) ∧
      Carries wrapped.data ⟨exit, 0, true, nyUnicastDefaultTTL⟩ packet.data := by
  have hvalid : exit ≠ invalidNodeIdNumeric := by
    rintro rfl
    exact absurd hexit.1 (by decide)
  have hlen : (slidePacket packet).len = exitHeaderLen + packet.len := len_slidePacket hfits
  obtain ⟨head, hhead, hslid⟩ : ∃ head : List UInt8, head.length = 8 ∧
      (slidePacket packet).data = head ++ packet.data := by
    refine ⟨packet.all.take 8, ?_, ?_⟩
    · rw [List.length_take]
      change 8 + packet.len ≤ _ at hfits
      omega
    · change (Slice.overwrite packet.all 8 packet.data).take (8 + packet.len) = _
      unfold Slice.overwrite
      apply List.take_left'
      rw [List.length_append, List.length_take]
      change 8 + packet.len ≤ _ at hfits
      change min 8 _ + packet.len = _
      omega
  obtain ⟨a₀, a₁, a₂, a₃, a₄, a₅, a₆, a₇, rfl⟩ :
      ∃ a₀ a₁ a₂ a₃ a₄ a₅ a₆ a₇, head = [a₀, a₁, a₂, a₃, a₄, a₅, a₆, a₇] := by
    match head, hhead with
    | [a₀, a₁, a₂, a₃, a₄, a₅, a₆, a₇], _ => exact ⟨a₀, a₁, a₂, a₃, a₄, a₅, a₆, a₇, rfl⟩
  -- the header is written from front to back
  obtain ⟨b₀, b₁, b₂, b₃, hlse⟩ : ∃ b₀ b₁ b₂ b₃,
      encodeMplsLse exit 0 true nyUnicastDefaultTTL = [b₀, b₁, b₂, b₃] := ⟨_, _, _, _, rfl⟩
  let version : UInt8 := .ofNat (nyUnicastProtoId * 16)
  have hnine : (version >>> 4).toNat = nyUnicastProtoId := by decide +revert
  let length : UInt16 := .ofNat (exitHeaderLen + packet.len) - .ofNat polyHeaderSize
  obtain ⟨p₁, h₁, hdata₁⟩ := Slice.setIndex_data (s := slidePacket packet) (i := 0) version
    (by rw [hlen]; exact Nat.lt_add_right _ (by decide))
  rw [hslid] at hdata₁
  replace hdata₁ : p₁.data = version :: a₁ :: a₂ :: a₃ :: a₄ :: a₅ :: a₆ :: a₇ ::
    packet.data := hdata₁
  have hlen₁ : 8 ≤ p₁.len := by simp [Slice.len, hdata₁]
  have hversion : Packet.getIPVersion p₁ = .ok 9 := by
    rw [Packet.getIPVersion_eq (by omega), version_eq_ipVersion (by omega), hdata₁]
    exact congrArg Except.ok hnine
  obtain ⟨p₂, h₂, hdata₂⟩ := Slice.patch_data (s := p₁) polyOffsetPayloadLength
    (put16 length) (Nat.le_trans (by decide : 1 + 2 ≤ 8) hlen₁)
  rw [hdata₁] at hdata₂
  replace hdata₂ : p₂.data = version :: put16 length ++ a₃ :: a₄ :: a₅ :: a₆ :: a₇ ::
    packet.data := hdata₂
  have hlen₂ : 8 ≤ p₂.len := by simp [Slice.len, hdata₂, put16]
  obtain ⟨p₃, h₃, hdata₃⟩ := Slice.setIndex_data (s := p₂)
    (i := polyHeaderSize + nyUnicastOffsetSubtype) nyUnicastSubtypeMpls
    (Nat.lt_of_lt_of_le (by decide : 3 < 8) hlen₂)
  rw [hdata₂] at hdata₃
  replace hdata₃ : p₃.data = version :: put16 length ++ nyUnicastSubtypeMpls ::
    a₄ :: a₅ :: a₆ :: a₇ :: packet.data := hdata₃
  have hlen₃ : 8 ≤ p₃.len := by simp [Slice.len, hdata₃, put16]
  obtain ⟨p₄, h₄, hdata₄⟩ := Slice.patch_data (s := p₃) (polyHeaderSize + nyUnicastOffsetLse)
    [b₀, b₁, b₂, b₃] hlen₃
  rw [hdata₃] at hdata₄
  refine ⟨p₄, ?_, ?_⟩
  · unfold wrapExitPacket Packet.setIPVersion Packet.setLength
    rw [if_neg hvalid, if_neg (Nat.not_lt.mpr hfits), h₁, Go.ok_bind, hversion, Go.ok_bind,
      if_neg (by decide), if_neg (by decide), h₂, Go.ok_bind, h₃, Go.ok_bind, hlse, h₄]
    rfl
  · have hfield : length.toNat = exitHeaderLen + packet.len - polyHeaderSize := by
      have hle : UInt16.ofNat polyHeaderSize ≤ .ofNat (exitHeaderLen + packet.len) := by
        rw [UInt16.le_iff_toNat_le, UInt16.toNat_ofNat', UInt16.toNat_ofNat',
          Nat.mod_eq_of_lt hsmall]
        exact Nat.le_trans (by decide) (Nat.le_add_right exitHeaderLen _)
      rw [UInt16.toNat_sub_of_le _ _ hle, UInt16.toNat_ofNat', UInt16.toNat_ofNat',
        Nat.mod_eq_of_lt hsmall]
      rfl
    have hcarries := carries_frame version length nyUnicastSubtypeMpls b₀ b₁ b₂ b₃ packet.data hnine
      (by rw [hfield]; exact Nat.sub_add_cancel (Nat.le_add_right_of_le (by decide))) hsmall
    rw [← hlse, decode_encodeMplsLse exit 0 true nyUnicastDefaultTTL hexit.2 (by decide)]
      at hcarries
    rw [hdata₄]
    exact hcarries

/-- Framing puts the header in front of the MPLS packet. -/
theorem frameMplsUnicast_eq {buffer : List UInt8} {offset size : Nat} (hsize : mplsLseLen ≤ size)
    (hroom : offset + size + (polyHeaderSize + 1) ≤ buffer.length) (protoId subtype : Nat) :
    let mpls := (buffer.take (offset + size)).drop offset
    let out := frameMplsUnicast buffer offset size protoId subtype
    (out.1.take (offset + out.2)).drop offset =
      .ofNat (protoId * 16) :: put16 (.ofNat (size + 1)) ++ .ofNat subtype :: mpls := by
  intro mpls out
  -- all writes are behind the offset
  obtain ⟨front, elems, hfront, rfl⟩ : ∃ front elems, front.length = offset ∧
      buffer = front ++ elems := by
    refine ⟨buffer.take offset, buffer.drop offset, ?_, (List.take_append_drop _ _).symm⟩
    rw [List.length_take]
    omega
  subst hfront
  change front.length + size + 4 ≤ _ at hroom
  rw [List.length_append] at hroom
  have hmpls : mpls = elems.take size := by
    change (List.take (front.length + size) (front ++ elems)).drop front.length = _
    rw [List.take_length_add_append, List.drop_left]
  have hlength : mpls.length = size := by
    rw [hmpls, List.length_take]
    omega
  have hlong : 4 ≤ elems.length := by omega
  obtain ⟨a₀, a₁, a₂, a₃, others, rfl⟩ := exists_word hlong
  have hout : out = (front ++ (UInt8.ofNat (protoId * 16) :: put16 (.ofNat (size + 1)) ++
      .ofNat subtype :: mpls ++ others.drop mpls.length), size + 4) := by
    have hwrite : ∀ (elems : List UInt8) (vs : List UInt8),
        Slice.overwrite (front ++ elems) front.length vs = front ++ Slice.overwrite elems 0 vs :=
      fun elems vs => Slice.overwrite_shift front elems 0 vs
    change frameMplsUnicast _ _ _ _ _ = _
    unfold frameMplsUnicast
    rw [if_neg (Nat.not_lt.mpr hsize), if_neg (Nat.not_lt.mpr (by
      rw [List.length_append]
      exact hroom))]
    simp only [hwrite, Slice.overwrite_shift]
    change (front ++ (_ :: put16 _ ++ _ :: (mpls ++
      List.drop (polyHeaderSize + 1 + mpls.length) _)), _) = _
    rw [Nat.add_comm (polyHeaderSize + 1) mpls.length]
    simp [polyHeaderSize]
  rw [hout, List.take_length_add_append, List.drop_left]
  apply List.take_left'
  simp only [put16, List.cons_append, List.nil_append, List.length_cons, hlength]

theorem frameMplsUnicast_carries {buffer : List UInt8} {offset size : Nat}
    (hsize : mplsLseLen ≤ size)
    (hroom : offset + size + (polyHeaderSize + 1) ≤ buffer.length)
    (hsmall : size + (polyHeaderSize + 1) < 2 ^ 16) :
    let mpls := (buffer.take (offset + size)).drop offset
    let out := frameMplsUnicast buffer offset size nyUnicastProtoId nyUnicastSubtypeMpls.toNat
    Carries ((out.1.take (offset + out.2)).drop offset) (decodeMplsLse (mpls.take mplsLseLen))
      (mpls.drop mplsLseLen) := by
  intro mpls out
  have hlength : mpls.length = size := by
    change (List.drop offset _).length = size
    rw [List.length_drop, List.length_take]
    omega
  rw [frameMplsUnicast_eq hsize hroom]
  change Carries (_ :: put16 _ ++ _ :: mpls) _ _
  obtain ⟨b₀, b₁, b₂, b₃, inner, hmpls⟩ := exists_word (hlength.symm ▸ hsize)
  rw [hmpls] at hlength ⊢
  simp only [List.length_cons] at hlength
  simp only [polyHeaderSize] at hsmall
  have hinner : exitHeaderLen + inner.length = size + 4 := by
    change 8 + inner.length = size + 4
    omega
  refine carries_frame _ _ _ b₀ b₁ b₂ b₃ inner (by decide) ?_ ?_
  · rw [hinner, UInt16.toNat_ofNat', Nat.mod_eq_of_lt (by omega)]
    rfl
  · rw [hinner]
    exact hsmall

/-- The tunnel preserves packets: an IP packet that is wrapped for an assigned exit,
and an MPLS packet that is framed as it is read from the TUN. -/
theorem exit_tunnel_preserves {H Peer : Type} (hops : List (Hop Peer)) :
    (∀ (cfg : CentralCfg H) (ids : NodeIdMap) (node : NodeId) (exit : NodeIdNumeric)
        (packet : Packet),
      buildNodeIdMap cfg = .ok ids → ids.toNumeric node = some exit →
      WellFormedIP packet.data →
      exitHeaderLen + packet.len ≤ packet.all.length →
      exitHeaderLen + packet.len ≤ maxMessageSize →
      ∃ wrapped journey, wrapExitPacket packet exit = .ok (.ok wrapped) ∧
        outerLse wrapped.data = ⟨exit, 0, true, nyUnicastDefaultTTL⟩ ∧
        wrapped.data.drop exitHeaderLen = packet.data ∧
        Travels hops wrapped.data journey ∧
        Delivers hops wrapped.data journey packet.data 0) ∧
    (∀ (buffer : List UInt8) (offset size : Nat),
      mplsLseLen ≤ size → offset + size + (polyHeaderSize + 1) ≤ buffer.length →
      size + (polyHeaderSize + 1) ≤ maxMessageSize →
      let mpls := (buffer.take (offset + size)).drop offset
      let out := frameMplsUnicast buffer offset size nyUnicastProtoId nyUnicastSubtypeMpls.toNat
      let frame := (out.1.take (offset + out.2)).drop offset
      ∃ journey, outerLse frame = decodeMplsLse (mpls.take mplsLseLen) ∧
        frame.drop exitHeaderLen = mpls.drop mplsLseLen ∧
        Travels hops frame journey ∧
        ((outerLse frame).bos = true → WellFormedIP (mpls.drop mplsLseLen) →
          Delivers hops frame journey (mpls.drop mplsLseLen) 0) ∧
        ((outerLse frame).bos = false → mplsLseLen ≤ (mpls.drop mplsLseLen).length →
          Delivers hops frame journey (mpls.drop mplsLseLen) ethPMplsUnicast)) := by
  constructor
  · intro cfg ids node exit packet hids hexit hip hfits hmax
    have hlabel := buildNodeIdMap_assignsLabels hids node exit hexit
    have hsmall : exitHeaderLen + packet.len < 2 ^ 16 :=
      Nat.lt_of_le_of_lt hmax (by decide)
    obtain ⟨wrapped, hwrapped, hcarries⟩ := wrapExitPacket_carries hlabel hfits hsmall
    obtain ⟨journey, htravels, hdelivers, _⟩ := hcarries.delivers hops
    exact ⟨wrapped, journey, hwrapped, hcarries.outer, hcarries.rest, htravels, hdelivers rfl hip⟩
  · intro buffer offset size hsize hroom hmax mpls out frame
    have hsmall : size + (polyHeaderSize + 1) < 2 ^ 16 :=
      Nat.lt_of_le_of_lt hmax (by decide)
    have hcarries := frameMplsUnicast_carries hsize hroom hsmall
    obtain ⟨journey, htravels, hip, hstack⟩ := hcarries.delivers hops
    refine ⟨journey, hcarries.outer, hcarries.rest, htravels, ?_, ?_⟩
    · rw [hcarries.outer]
      exact hip
    · rw [hcarries.outer]
      exact hstack

section Sample

def ownedBy (id : NodeId) : NodeCfg Unit := ⟨id, 0, [], [], 0⟩

/-- Two nodes, which get the ids 16 and 17. -/
def pairCfg : CentralCfg Unit := ⟨none, [], [ownedBy "here", ownedBy "there"], [], 0, []⟩

def pairIds : NodeIdMap := (buildNodeIdMap pairCfg).toOption.getD .empty

/-- A relay, which has a peer to the exit. -/
def relayHop : Hop Nat :=
  ⟨⟨16, false, 0, AList.insert 17 ⟨"there", some 2, false⟩ ∅⟩, some 1, [0, 0], []⟩

def exitHop : Hop Nat := ⟨⟨17, true, 0, ∅⟩, some 1, [0, 0, 0], []⟩

def headerOnly : List UInt8 := 0x45 :: 0 :: 0 :: 20 :: List.replicate 16 0

def wrappedHeader : List UInt8 :=
  [0x90, 0, 25, nyUnicastSubtypeMpls] ++ encodeMplsLse 17 0 true nyUnicastDefaultTTL ++ headerOnly

def stackedHeader : List UInt8 :=
  encodeMplsLse 17 0 false 2 ++ encodeMplsLse 18 0 true 2 ++ headerOnly

/-- A header is wrapped, forwarded and delivered. One behind two labels is delivered
behind the second. -/
theorem exit_tunnel_preserves_relayed :
    (∃ journey, Travels [relayHop, exitHop] wrappedHeader journey ∧
      journey.fate = .delivered headerOnly 0) ∧
    ∃ journey, Travels [relayHop, exitHop]
        ([0x90, 0, 29, nyUnicastSubtypeMpls] ++ stackedHeader) journey ∧
      journey.fate = .delivered (encodeMplsLse 18 0 true 2 ++ headerOnly) ethPMplsUnicast := by
  obtain ⟨htunnel, hframe⟩ := exit_tunnel_preserves (H := Unit) [relayHop, exitHop]
  constructor
  · obtain ⟨wrapped, journey, hwrapped, -, -, htravels, hdelivers⟩ :=
      htunnel pairCfg pairIds "there" 17 ⟨headerOnly, List.replicate 8 0⟩ (by decide +kernel)
        (by decide +kernel) (by decide +kernel) (by decide +kernel) (by decide +kernel)
    obtain rfl : wrapped = ⟨wrappedHeader, []⟩ :=
      Except.ok.inj (Except.ok.inj (hwrapped.symm.trans (by decide +kernel)))
    refine ⟨journey, htravels, hdelivers.reached [relayHop] exitHop [] rfl ?_ ?_ ?_ rfl⟩
    · exact ⟨_, rfl, rfl⟩
    · decide +kernel
    · decide +kernel
  · obtain ⟨journey, -, -, htravels, -, hdelivers⟩ :=
      hframe (stackedHeader ++ [0, 0, 0, 0]) 0 28 (by decide +kernel) (by decide +kernel)
        (by decide +kernel)
    refine ⟨journey, htravels, (hdelivers (by decide +kernel) (by decide +kernel)).reached
      [relayHop] exitHop [] rfl ?_ ?_ ?_ rfl⟩
    · exact ⟨_, rfl, rfl⟩
    · decide +kernel
    · decide +kernel

end Sample

end Nylon.Core
