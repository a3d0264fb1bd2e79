import Nylon.Core.NeighIO
import Nylon.Lib.Transitions

/-!
Seqno requests in the queue of a neighbour. A request that is not newer than the
entry of the deduplication is dropped, since such a request has been sent before.
Any other one is merged with the request that waits for the same source.

Merging keeps the smaller number, and the entry of the deduplication is the larger
number, both without regard to the order of seqnos. So a newer request behind an
older one is lost, and is dropped from then on; and after a wrap the entry stays
at the older number, and requests are repeated.
-/

namespace Nylon.Core

open State Netip Lib

/-- The queue, the time, and the requests that `flushIO` has taken. -/
structure SeqnoQueue (D : Type) where
  io : IOPending D
  now : Time
  sent : List (Time × Source × UInt16)

inductive SeqnoEvent where
  | elapse (d : Nat)
  | request (src : Source) (seqno : UInt16) (hopCnt : UInt8)
  | flush (tr : Transport) (safeMTU : Nat) (orders : Nat → PassOrder)
  | gc
  | sendRouteUpdate (advRoute : PubRoute)
  | sendAckRetract (pfx : Prefix)

def Queued.seqnoRequest? : Queued → Option (Source × UInt16)
  | .request src req => some (src, req.1)
  | _ => none

variable {D : Type} [TTLCache D Source UInt16]

namespace SeqnoQueue

def start (now : Time) : SeqnoQueue D := ⟨.empty, now, []⟩

/-- `ttl` is `SeqnoDedupTTL`. -/
def step (ttl : Time) (s : SeqnoQueue D) : SeqnoEvent → SeqnoQueue D
  | .elapse d => {s with now := s.now + d}
  | .request src seqno hopCnt => {s with io := s.io.requestSeqno ttl s.now src seqno hopCnt}
  | .flush tr safeMTU orders =>
    let out := flushNeighbour tr safeMTU orders s.io
    let taken := out.sent.flatten.filterMap Queued.seqnoRequest?
    {s with io := out.left, sent := s.sent ++ taken.map fun req => (s.now, req)}
  | .gc => {s with io := s.io.gc s.now}
  | .sendRouteUpdate advRoute => {s with io := s.io.sendRouteUpdate advRoute}
  | .sendAckRetract pfx => {s with io := s.io.sendAckRetract pfx}

/-- A request at or after the given one is pending, or has been taken within the
lifetime of an entry. -/
def Covers (ttl : Time) (s : SeqnoQueue D) (src : Source) (seqno : UInt16) : Prop :=
  (∃ req, s.io.seqnoReq.lookup src = some req ∧ seqnoGe req.1 seqno = true) ∨
    ∃ t w, (t, src, w) ∈ s.sent ∧ seqnoGe w seqno = true ∧ (ttl ≤ 0 ∨ s.now ≤ t + ttl)

/-- A call does not meet an older request with a smaller number, or an older entry
with a larger number, unless the entry covers it. -/
def KeepsOrder (s : SeqnoQueue D) (src : Source) (seqno : UInt16) : Prop :=
  (∃ old, TTLCache.get s.io.seqnoDedup s.now src = some old ∧ seqnoGe old seqno = true) ∨
    ((∀ req, s.io.seqnoReq.lookup src = some req → ¬ (req.1 < seqno ∧ seqnoLt req.1 seqno = true)) ∧
      ∀ old, TTLCache.get s.io.seqnoDedup s.now src = some old →
        ¬ (seqno < old ∧ seqnoLt old seqno = true))

/-- The condition on the events of a run: the seqnos of a source stay in a window,
and every request keeps the order. -/
def InOrder (base : Source → UInt16) (s : SeqnoQueue D) : SeqnoEvent → Prop
  | .request src seqno _ => InWindow (base src) seqno ∧ s.KeepsOrder src seqno
  | _ => True

end SeqnoQueue

section Order

variable {base a b c : UInt16}

theorem seqnoGe_iff_offset (ha : InWindow base a) (hb : InWindow base b) :
    seqnoGe a b = true ↔ seqnoOffset base b ≤ seqnoOffset base a := by
  rw [seqnoGe, Bool.not_eq_true', ← Bool.not_eq_true, seqnoLt_iff_offset ha hb, not_lt]

theorem seqnoGe_trans (ha : InWindow base a) (hb : InWindow base b) (hc : InWindow base c)
    (hab : seqnoGe a b = true) (hbc : seqnoGe b c = true) : seqnoGe a c = true := by
  rw [seqnoGe_iff_offset ha hb] at hab
  rw [seqnoGe_iff_offset hb hc] at hbc
  rw [seqnoGe_iff_offset ha hc]
  omega

theorem seqnoGe_self (ha : InWindow base a) : seqnoGe a a = true := by
  rw [seqnoGe_iff_offset ha ha]

end Order

namespace SeqnoQueue

variable {ttl : Time} {base : Source → UInt16}

/-- Every entry that has not expired stands for a request that is pending, or was
taken after the entry was set. The entries are the ones that will be found if nothing
but time passes. -/
structure Honoured (ttl : Time) (base : Source → UInt16) (s : SeqnoQueue D) : Prop where
  pendingWindow : ∀ src req, s.io.seqnoReq.lookup src = some req → InWindow (base src) req.1
  sentWindow : ∀ t src w, (t, src, w) ∈ s.sent → InWindow (base src) w
  entryWindow : ∀ src t old, s.now ≤ t → TTLCache.get s.io.seqnoDedup t src = some old →
    InWindow (base src) old ∧ (ttl ≤ 0 ∨ t ≤ s.now + ttl)
  entries : ∀ src t old, s.now ≤ t → TTLCache.get s.io.seqnoDedup t src = some old →
    (∃ req, s.io.seqnoReq.lookup src = some req ∧ seqnoGe req.1 old = true) ∨
      ∃ t₀ w, (t₀, src, w) ∈ s.sent ∧ seqnoGe w old = true ∧ (ttl ≤ 0 ∨ t ≤ t₀ + ttl)

variable {s : SeqnoQueue D} {src : Source} {seqno : UInt16} {now : Time}

/-- What an entry says at a time before it expires holds for a newer request. -/
theorem Honoured.covers (h : Honoured ttl base s) {old : UInt16}
    (hold : TTLCache.get s.io.seqnoDedup s.now src = some old)
    (hseqno : InWindow (base src) seqno) (hge : seqnoGe old seqno = true) :
    s.Covers ttl src seqno := by
  obtain ⟨hwindow, _⟩ := h.entryWindow src s.now old le_rfl hold
  rcases h.entries src s.now old le_rfl hold with ⟨req, hreq, hpending⟩ | ⟨t, w, hsent, hw, ht⟩
  · exact Or.inl ⟨req, hreq, seqnoGe_trans (h.pendingWindow src req hreq) hwindow hseqno
      hpending hge⟩
  · exact Or.inr ⟨t, w, hsent, seqnoGe_trans (h.sentWindow t src w hsent) hwindow hseqno hw hge,
      ht⟩

/-- A call that keeps the order is dropped, or sets the entry to its own seqno. -/
theorem requestSeqno_cases (hopCnt : UInt8) (h : s.KeepsOrder src seqno) :
    (s.io.requestSeqno ttl s.now src seqno hopCnt = s.io ∧
        ∃ old, TTLCache.get s.io.seqnoDedup s.now src = some old ∧ seqnoGe old seqno = true) ∨
      (s.io.requestSeqno ttl s.now src seqno hopCnt =
          s.io.enqueueRequest ttl s.now src seqno seqno hopCnt ∧
        (∀ req, s.io.seqnoReq.lookup src = some req →
          ¬ (req.1 < seqno ∧ seqnoLt req.1 seqno = true)) ∧
        ∀ old, TTLCache.get s.io.seqnoDedup s.now src = some old → seqnoGe old seqno = false) := by
  rw [IOPending.requestSeqno]
  cases hold : TTLCache.get s.io.seqnoDedup s.now src with
  | none =>
    rcases h with ⟨old, hsome, _⟩ | ⟨hpending, _⟩
    · rw [hold] at hsome
      cases hsome
    · exact Or.inr ⟨rfl, hpending, nofun⟩
  | some old =>
    dsimp only
    split
    · next hge => exact Or.inl ⟨rfl, old, rfl, hge⟩
    · next hlt =>
      rcases h with ⟨old', hsome, hge⟩ | ⟨hpending, hentry⟩
      · rw [hold] at hsome
        cases hsome
        exact absurd hge hlt
      · rw [seqnoGe, Bool.not_eq_true', Bool.not_eq_false] at hlt
        have hle : old ≤ seqno := by
          by_contra hgt
          exact hentry old hold ⟨UInt16.not_le.mp hgt, hlt⟩
        have hmax : max seqno old = seqno := by
          change (if seqno ≤ old then old else seqno) = seqno
          split
          · next hge => exact UInt16.le_antisymm hle hge
          · rfl
        rw [hmax]
        refine Or.inr ⟨rfl, hpending, ?_⟩
        rintro _ ⟨rfl⟩
        rw [seqnoGe, hlt, Bool.not_true]

/-- The merged request is at or after a new one that keeps the order. -/
theorem mergeRequest_covers {b : UInt16} {pending : Option (UInt16 × UInt8)}
    (hopCnt : UInt8) (hseqno : InWindow b seqno)
    (hwindow : ∀ req, pending = some req → InWindow b req.1)
    (horder : ∀ req, pending = some req → ¬ (req.1 < seqno ∧ seqnoLt req.1 seqno = true)) :
    InWindow b (IOPending.mergeRequest pending seqno hopCnt).1 ∧
      seqnoGe (IOPending.mergeRequest pending seqno hopCnt).1 seqno = true := by
  cases pending with
  | none => exact ⟨hseqno, seqnoGe_self hseqno⟩
  | some req =>
    rw [IOPending.mergeRequest]
    split
    · exact ⟨hseqno, seqnoGe_self hseqno⟩
    · next hle =>
      have hreq := hwindow req rfl
      have hge : seqnoGe req.1 seqno = true := by
        rw [seqnoGe, Bool.not_eq_true', ← Bool.not_eq_true]
        intro hlt
        have hne : req.1 ≠ seqno := by
          rintro heq
          rw [seqnoLt_iff_offset hreq hseqno, heq] at hlt
          omega
        apply horder req rfl
        exact ⟨UInt16.lt_of_le_of_ne (UInt16.not_lt.mp hle) hne, hlt⟩
      split
      · exact ⟨hreq, hge⟩
      · exact ⟨hreq, hge⟩

/-- A request that an entry covers is dropped. -/
theorem requestSeqno_dropped {old : UInt16} {io : IOPending D}
    (hopCnt : UInt8) (hold : TTLCache.get io.seqnoDedup now src = some old)
    (hge : seqnoGe old seqno = true) : io.requestSeqno ttl now src seqno hopCnt = io := by
  rw [IOPending.requestSeqno, hold]
  exact if_pos hge

omit [TTLCache D Source UInt16] in
theorem lookup_flush (tr : Transport) (safeMTU : Nat) (orders : Nat → PassOrder)
    (io : IOPending D) (src : Source) : let out := flushNeighbour tr safeMTU orders io
    out.left.seqnoReq.lookup src = io.seqnoReq.lookup src ∨
      (out.left.seqnoReq.lookup src = none ∧ ∀ req, io.seqnoReq.lookup src = some req →
        (src, req.1) ∈ out.sent.flatten.filterMap Queued.seqnoRequest?) := by
  intro out
  obtain ⟨hflushed, _, _⟩ := flushNeighbour_spec tr safeMTU orders io
  cases hrest : out.left.seqnoReq.lookup src with
  | some req =>
    have hleft := (mem_queued (q := .request src req)).mpr hrest
    have hqueued := hflushed.mem_iff.mp (List.mem_append_right _ hleft)
    exact Or.inl (mem_queued.mp hqueued).symm
  | none =>
    refine Or.inr ⟨rfl, fun req hreq => ?_⟩
    have hqueued := hflushed.mem_iff.mpr ((mem_queued (q := .request src req)).mpr hreq)
    rcases List.mem_append.mp hqueued with hsent | hleft
    · exact List.mem_filterMap.mpr ⟨_, hsent, rfl⟩
    · cases hrest.symm.trans (mem_queued.mp hleft)

theorem Honoured.flush (h : Honoured ttl base s) (tr : Transport) (safeMTU : Nat)
    (orders : Nat → PassOrder) : Honoured ttl base (s.step ttl (.flush tr safeMTU orders)) := by
  obtain ⟨hflushed, hdedup, _⟩ := flushNeighbour_spec tr safeMTU orders s.io
  constructor
  case pendingWindow =>
    intro src req hreq
    rcases lookup_flush tr safeMTU orders s.io src with hsame | ⟨hnone, _⟩
    · exact h.pendingWindow src req (hsame.symm.trans hreq)
    · cases hnone.symm.trans hreq
  case sentWindow =>
    intro t src w hsent
    rcases List.mem_append.mp hsent with hold | hnew
    · exact h.sentWindow t src w hold
    · obtain ⟨req, hreq, heq⟩ := List.mem_map.mp hnew
      cases heq
      obtain ⟨q, hq, hrequest⟩ := List.mem_filterMap.mp hreq
      cases q with
      | request src req =>
        cases hrequest
        have hqueued := hflushed.mem_iff.mp (List.mem_append_left _ hq)
        exact h.pendingWindow src req (mem_queued.mp hqueued)
      | update pfx u => cases hrequest
      | ack pfx => cases hrequest
  case entryWindow =>
    intro src t old ht hget
    exact h.entryWindow src t old ht (hdedup ▸ hget)
  case entries =>
    intro src t old ht hget
    have hget : TTLCache.get s.io.seqnoDedup t src = some old := hdedup ▸ hget
    rcases h.entries src t old ht hget with ⟨req, hreq, hge⟩ | ⟨t₀, w, hsent, hge, hlives⟩
    · rcases lookup_flush tr safeMTU orders s.io src with hsame | ⟨_, htaken⟩
      · exact Or.inl ⟨req, hsame.trans hreq, hge⟩
      · refine Or.inr ⟨s.now, req.1, ?_, hge, (h.entryWindow src t old ht hget).2⟩
        exact List.mem_append_right _ (List.mem_map.mpr ⟨_, htaken req hreq, rfl⟩)
    · exact Or.inr ⟨t₀, w, List.mem_append_left _ hsent, hge, hlives⟩

/-- The entry of a source that will be found at a later time has at least the given
seqno. -/
def EntryCovers (later : Time) (src : Source) (seqno : UInt16) (s : SeqnoQueue D) : Prop :=
  s.now ≤ later →
    ∃ v, TTLCache.get s.io.seqnoDedup later src = some v ∧ seqnoGe v seqno = true

variable [LawfulTTLCache D]

theorem honoured_start (now : Time) : Honoured ttl base (start now : SeqnoQueue D) := by
  constructor <;> simp [start, IOPending.empty, LawfulTTLCache.get_empty]

/-- What is found at a time after a request has been queued. -/
theorem get_enqueueRequest (io : IOPending D) (hopCnt : UInt8) {later : Time}
    (hlater : now ≤ later) (src' : Source) :
    TTLCache.get (io.enqueueRequest ttl now src seqno seqno hopCnt).seqnoDedup later src' =
      if src' = src then if 0 < ttl ∧ now + ttl < later then none else some seqno
      else TTLCache.get io.seqnoDedup later src' :=
  LawfulTTLCache.get_set io.seqnoDedup ttl src src' seqno hlater

theorem Honoured.enqueue (h : Honoured ttl base s)
    (hopCnt : UInt8) (hseqno : InWindow (base src) seqno)
    (horder : ∀ req, s.io.seqnoReq.lookup src = some req →
      ¬ (req.1 < seqno ∧ seqnoLt req.1 seqno = true)) :
    Honoured ttl base {s with io := s.io.enqueueRequest ttl s.now src seqno seqno hopCnt} := by
  obtain ⟨hmerged, hcovers⟩ := mergeRequest_covers hopCnt hseqno (h.pendingWindow src) horder
  constructor
  case pendingWindow =>
    intro src' req hreq
    simp only [IOPending.enqueueRequest, Table.lookup_insert_eq] at hreq
    split at hreq
    · next heq =>
      cases hreq
      rw [heq]
      exact hmerged
    · exact h.pendingWindow src' req hreq
  case sentWindow => exact h.sentWindow
  case entryWindow =>
    intro src' t old ht hget
    rw [get_enqueueRequest s.io hopCnt ht] at hget
    by_cases heq : src' = src
    · rw [if_pos heq] at hget
      obtain ⟨hlives, hvalue⟩ := Option.ite_none_left_eq_some.mp hget
      cases hvalue
      rw [not_and_or, not_lt, not_lt] at hlives
      rw [heq]
      exact ⟨hseqno, hlives⟩
    · rw [if_neg heq] at hget
      exact h.entryWindow src' t old ht hget
  case entries =>
    intro src' t old ht hget
    rw [get_enqueueRequest s.io hopCnt ht] at hget
    simp only [IOPending.enqueueRequest, Table.lookup_insert_eq]
    by_cases heq : src' = src
    · rw [if_pos heq] at hget
      cases (Option.ite_none_left_eq_some.mp hget).2
      exact Or.inl ⟨_, by rw [if_pos heq], hcovers⟩
    · rw [if_neg heq] at hget ⊢
      exact h.entries src' t old ht hget

theorem Honoured.step (h : Honoured ttl base s) {e : SeqnoEvent} (he : s.InOrder base e) :
    Honoured ttl base (s.step ttl e) := by
  cases e with
  | elapse d =>
    have hlater : s.now ≤ s.now + d := le_add_of_nonneg_right (Int.natCast_nonneg d)
    refine ⟨h.pendingWindow, h.sentWindow, fun src t old ht hget => ?_,
      fun src t old ht hget => h.entries src t old (hlater.trans ht) hget⟩
    obtain ⟨hwindow, hlives⟩ := h.entryWindow src t old (hlater.trans ht) hget
    refine ⟨hwindow, hlives.imp_right fun hbound => ?_⟩
    exact hbound.trans (add_le_add_left hlater ttl)
  | request src seqno hopCnt =>
    obtain ⟨hseqno, horder⟩ := he
    rw [SeqnoQueue.step]
    rcases requestSeqno_cases hopCnt horder with ⟨hsame, _⟩ | ⟨hnew, hpending, _⟩
    · rw [hsame]
      exact h
    · rw [hnew]
      exact h.enqueue hopCnt hseqno hpending
  | flush tr safeMTU orders => exact h.flush tr safeMTU orders
  | gc =>
    have hsame : ∀ src t, s.now ≤ t → TTLCache.get (s.io.gc s.now).seqnoDedup t src =
        TTLCache.get s.io.seqnoDedup t src :=
      fun src t ht => LawfulTTLCache.get_deleteExpired s.io.seqnoDedup src ht
    exact ⟨h.pendingWindow, h.sentWindow,
      fun src t old ht hget => h.entryWindow src t old ht ((hsame src t ht).symm.trans hget),
      fun src t old ht hget => h.entries src t old ht ((hsame src t ht).symm.trans hget)⟩
  | sendRouteUpdate advRoute => exact ⟨h.pendingWindow, h.sentWindow, h.entryWindow, h.entries⟩
  | sendAckRetract pfx => exact ⟨h.pendingWindow, h.sentWindow, h.entryWindow, h.entries⟩

theorem EntryCovers.step (h : Honoured ttl base s) {later : Time}
    (hseqno : InWindow (base src) seqno) (hentry : EntryCovers later src seqno s)
    {e : SeqnoEvent} (he : s.InOrder base e) : EntryCovers later src seqno (s.step ttl e) := by
  cases e with
  | elapse d =>
    exact fun hlater => hentry ((le_add_of_nonneg_right (Int.natCast_nonneg d)).trans hlater)
  | request src' seqno' hopCnt =>
    intro (hlater : s.now ≤ later)
    obtain ⟨v, hget, hge⟩ := hentry hlater
    obtain ⟨hwindow', horder⟩ := he
    obtain ⟨hwindow, hlives⟩ := h.entryWindow src later v hlater hget
    rw [SeqnoQueue.step]
    rcases requestSeqno_cases hopCnt horder with ⟨hsame, _⟩ | ⟨hnew, _, hnewer⟩
    · rw [hsame]
      exact ⟨v, hget, hge⟩
    · simp only [hnew]
      rw [get_enqueueRequest s.io hopCnt hlater]
      by_cases heq : src = src'
      · -- the new entry is newer, and lasts at least as long as the old one
        subst heq
        have hlt := hnewer v (LawfulTTLCache.get_earlier hlater hget)
        rw [← Bool.not_eq_true, seqnoGe_iff_offset hwindow hwindow'] at hlt
        rw [seqnoGe_iff_offset hwindow hseqno] at hge
        refine ⟨seqno', ?_, ?_⟩
        · rw [if_pos rfl, if_neg]
          rwa [not_and_or, not_lt, not_lt]
        · rw [seqnoGe_iff_offset hwindow' hseqno]
          omega
      · rw [if_neg heq]
        exact ⟨v, hget, hge⟩
  | flush tr safeMTU orders =>
    intro hlater
    rw [SeqnoQueue.step, (flushNeighbour_spec tr safeMTU orders s.io).2.1]
    exact hentry hlater
  | gc =>
    intro (hlater : s.now ≤ later)
    obtain ⟨v, hget, hge⟩ := hentry hlater
    exact ⟨v, (LawfulTTLCache.get_deleteExpired _ _ hlater).trans hget, hge⟩
  | sendRouteUpdate advRoute => exact hentry
  | sendAckRetract pfx => exact hentry

theorem honoured_run {events : List SeqnoEvent}
    (hevents : Transitions.Along (step ttl) (InOrder base) (start now : SeqnoQueue D) events) :
    Honoured ttl base (Transitions.run (step ttl) (start now : SeqnoQueue D) events) :=
  Transitions.run_invariant (fun (s : SeqnoQueue D) _ (h : Honoured ttl base s) he => h.step he)
    (honoured_start now) hevents

/-- The entry after a call covers the call. -/
theorem entryCovers_request (hopCnt : UInt8) (hseqno : InWindow (base src) seqno)
    (horder : s.KeepsOrder src seqno) {later : Time}
    (hentry : TTLCache.get (s.step ttl (.request src seqno hopCnt)).io.seqnoDedup later src ≠
      none) : EntryCovers later src seqno (s.step ttl (.request src seqno hopCnt)) := by
  intro (hlater : s.now ≤ later)
  obtain ⟨v, hv⟩ := Option.ne_none_iff_exists'.mp hentry
  refine ⟨v, hv, ?_⟩
  rw [SeqnoQueue.step] at hv
  rcases requestSeqno_cases hopCnt horder with ⟨hsame, old, hold, hge⟩ | ⟨hnew, _⟩
  · rw [hsame] at hv
    cases hold.symm.trans (LawfulTTLCache.get_earlier hlater hv)
    exact hge
  · simp only [hnew] at hv
    rw [get_enqueueRequest s.io hopCnt hlater, if_pos rfl] at hv
    cases (Option.ite_none_left_eq_some.mp hv).2
    exact seqnoGe_self hseqno

/-- In every run whose calls keep the order, a request is pending or has been taken
after each call, and the call, repeated or with an older seqno, changes nothing as
long as the entry it found or set has not expired. -/
theorem seqno_requests_kept {now : Time} {events : List SeqnoEvent}
    (hevents : Transitions.Along (step ttl) (InOrder base) (start now : SeqnoQueue D) events)
    (hs : Transitions.run (step ttl) (start now) events = s) {src : Source} {seqno : UInt16}
    (hopCnt : UInt8) (hseqno : InWindow (base src) seqno) (horder : s.KeepsOrder src seqno) :
    (s.step ttl (.request src seqno hopCnt)).Covers ttl src seqno ∧
      ∀ (later : List SeqnoEvent) (s' : SeqnoQueue D) (seqno' : UInt16) (hopCnt' : UInt8),
        Transitions.Along (step ttl) (InOrder base)
          (s.step ttl (.request src seqno hopCnt)) later →
        Transitions.run (step ttl) (s.step ttl (.request src seqno hopCnt)) later = s' →
        TTLCache.get (s.step ttl (.request src seqno hopCnt)).io.seqnoDedup s'.now src ≠ none →
        InWindow (base src) seqno' → seqnoGe seqno seqno' = true →
        s'.io.requestSeqno ttl s'.now src seqno' hopCnt' = s'.io := by
  have hhonoured : Honoured ttl base s := hs ▸ honoured_run hevents
  have hafter : Honoured ttl base (s.step ttl (.request src seqno hopCnt)) :=
    hhonoured.step ⟨hseqno, horder⟩
  constructor
  · rw [SeqnoQueue.step]
    rcases requestSeqno_cases hopCnt horder with ⟨hsame, old, hold, hge⟩ | ⟨hnew, hpending, _⟩
    · rw [hsame]
      exact hhonoured.covers hold hseqno hge
    · rw [hnew]
      apply Or.inl
      refine ⟨_, AList.lookup_insert _, ?_⟩
      exact (mergeRequest_covers hopCnt hseqno (hhonoured.pendingWindow src) hpending).2
  · rintro later s' seqno' hopCnt' hlater rfl hfound hseqno' hge
    obtain ⟨hend, hcovered⟩ := Transitions.run_invariant
      (fun q e (h : Honoured ttl base q ∧ EntryCovers _ src seqno q)
        (he : q.InOrder base e) => ⟨h.1.step he, h.2.step h.1 hseqno he⟩)
      ⟨hafter, entryCovers_request hopCnt hseqno horder hfound⟩ hlater
    obtain ⟨v, hget, hvalue⟩ := hcovered le_rfl
    apply requestSeqno_dropped hopCnt' hget
    exact seqnoGe_trans (hend.entryWindow src _ v le_rfl hget).1 hseqno hseqno' hvalue hge

/-- A source, and a lifetime of three seconds. -/
def sampleSource : Source := ⟨"b", ⟨.v4 0x0A000100, 24, Prefix.bits24_le⟩⟩

def sampleTTL : Time := 3000000000

/-- A new queue with a cache that can be computed with. -/
def sampleStart : SeqnoQueue (ExpiryMap Source UInt16) := start 0

/-- A request before the wrap that was never sent, and four seconds later one after
the wrap. A second later that one is dropped. -/
theorem seqno_requests_kept_wrapped :
    let s := Transitions.run (step sampleTTL) sampleStart [.request sampleSource 65535 64,
      .elapse 4000000000, .request sampleSource 2 64]
    let s' := Transitions.run (step sampleTTL) s [.elapse 1000000000, .gc]
    s.Covers sampleTTL sampleSource 2 ∧
      s'.io.requestSeqno sampleTTL s'.now sampleSource 2 64 = s'.io := by
  have hfirst : sampleStart.KeepsOrder sampleSource 65535 :=
    Or.inr ⟨nofun, nofun⟩
  have hevents : Transitions.Along (step sampleTTL) (InOrder fun _ => 65530) sampleStart
      [.request sampleSource 65535 64, .elapse 4000000000] :=
    ⟨⟨by decide, hfirst⟩, trivial, trivial⟩
  have hpending : (Transitions.run (step sampleTTL) sampleStart
      [.request sampleSource 65535 64,
      .elapse 4000000000]).io.seqnoReq.lookup sampleSource = some (65535, 64) := by
    decide +kernel
  have hentry : TTLCache.get (Transitions.run (step sampleTTL) sampleStart
      [.request sampleSource 65535 64,
      .elapse 4000000000]).io.seqnoDedup 4000000000 sampleSource = none := by
    decide +kernel
  have hsecond : (Transitions.run (step sampleTTL) sampleStart
      [.request sampleSource 65535 64, .elapse 4000000000]).KeepsOrder sampleSource 2 := by
    refine Or.inr ⟨fun req hreq => ?_, fun old hold => ?_⟩
    · rw [hpending] at hreq
      cases hreq
      decide
    · cases hentry.symm.trans hold
  obtain ⟨hcovers, hrepeated⟩ := seqno_requests_kept hevents rfl 64 (by decide) hsecond
  refine ⟨hcovers, hrepeated [.elapse 1000000000, .gc] _ 2 64 ⟨trivial, trivial, trivial⟩ rfl ?_
    (by decide) (by decide)⟩
  decide +kernel

/-- The seqno 7 is asked for while a request for 5 is pending: 5 stays, and 7 is
taken for sent. -/
theorem newer_request_lost :
    ¬ (Transitions.run (step sampleTTL) sampleStart [.request sampleSource 5 64,
        .request sampleSource 7 64]).Covers sampleTTL sampleSource 7 := by
  have hpending : (Transitions.run (step sampleTTL) sampleStart [.request sampleSource 5 64,
      .request sampleSource 7 64]).io.seqnoReq.lookup sampleSource = some (5, 64) := by
    decide +kernel
  rintro (⟨req, hreq, hge⟩ | ⟨t, w, hsent, _⟩)
  · rw [hpending] at hreq
    cases hreq
    exact absurd hge (by decide)
  · cases hsent

end SeqnoQueue

end Nylon.Core
