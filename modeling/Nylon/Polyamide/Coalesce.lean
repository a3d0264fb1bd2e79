import Mathlib.Tactic

/-!
`coalesceMessages` (`polyamide/conn/bind_std.go`): with UDP segmentation offload,
datagrams of one size for one endpoint are sent as one message, which the kernel cuts
again. What goes out is what goes out without offload.
-/

namespace Nylon.Polyamide

/-- A datagram to send, with the capacity behind it. -/
structure SendBuffer where
  data : List UInt8
  free : Nat

/-- A message for the socket. The segment size is in the control data. -/
structure SendMessage where
  data : List UInt8
  free : Nat
  gso : Option Nat

def maxPayloadLen (is6 : Bool) : Nat :=
  if is6 then 2 ^ 16 - 1 - 8 else 2 ^ 16 - 1 - 20 - 8

def udpSegmentMaxDatagrams : Nat := 64

namespace SendMessage

def start (buf : SendBuffer) : SendMessage := ⟨buf.data, buf.free, none⟩

def setGSO (m : SendMessage) (gsoSize : Nat) : SendMessage :=
  {m with gso := some (gsoSize % 2 ^ 16)}

def append (m : SendMessage) (buf : SendBuffer) : SendMessage :=
  {m with data := m.data ++ buf.data, free := m.free - buf.data.length}

end SendMessage

/-- The loop after a message was started: `base` is `msgs[base]`. -/
def coalesce (is6 : Bool) (base : SendMessage) (gsoSize dgramCnt : Nat) (endBatch : Bool) :
    List SendBuffer → List SendMessage
  | [] => [base]
  | buf :: rest =>
    let msgLen := buf.data.length
    if msgLen + base.data.length ≤ maxPayloadLen is6 ∧ msgLen ≤ gsoSize ∧ msgLen ≤ base.free ∧
        dgramCnt < udpSegmentMaxDatagrams ∧ endBatch = false then
      let base := base.append buf
      coalesce is6 (if rest.isEmpty then base.setGSO gsoSize else base) gsoSize (dgramCnt + 1)
        (decide (msgLen < gsoSize)) rest
    else
      (if 1 < dgramCnt then base.setGSO gsoSize else base) ::
        coalesce is6 (.start buf) msgLen 1 false rest

def coalesceMessages (is6 : Bool) : List SendBuffer → List SendMessage
  | [] => []
  | buf :: rest => coalesce is6 (.start buf) buf.data.length 1 false rest

/-- The segments of `n` bytes; the last one may be shorter. -/
def segments (n : Nat) : Nat → List UInt8 → List (List UInt8)
  | 0, _ => []
  | _ + 1, [] => []
  | fuel + 1, data => data.take n :: segments n fuel (data.drop n)

/-- The datagrams a message goes out as. -/
def SendMessage.datagrams (m : SendMessage) : List (List UInt8) :=
  match m.gso with
  | none => [m.data]
  | some n => segments n m.data.length m.data

/-- The limits of the kernel for a segmented message. -/
def SendMessage.Legal (is6 : Bool) (m : SendMessage) : Prop :=
  m.gso ≠ none → m.data.length ≤ maxPayloadLen is6 ∧ m.datagrams.length ≤ udpSegmentMaxDatagrams

/-- The message holds these datagrams: all of one size, but for a shorter one that ends
it. -/
structure SendMessage.Batch (is6 : Bool) (m : SendMessage) (gsoSize : Nat) (endBatch : Bool)
    (segs : List (List UInt8)) : Prop where
  data : m.data = segs.flatten
  nonempty : segs ≠ []
  sizes : ∀ s ∈ segs, s ≠ [] ∧ s.length ≤ gsoSize
  full : ∀ s ∈ segs.dropLast, s.length = gsoSize
  last : endBatch = false → ∀ s ∈ segs, s.length = gsoSize
  fits : 1 < segs.length → m.data.length ≤ maxPayloadLen is6
  few : segs.length ≤ udpSegmentMaxDatagrams

theorem segments_flatten {n fuel : Nat} {segs : List (List UInt8)}
    (hsizes : ∀ s ∈ segs, s ≠ [] ∧ s.length ≤ n) (hfull : ∀ s ∈ segs.dropLast, s.length = n)
    (hfuel : segs.length ≤ fuel) : segments n fuel segs.flatten = segs := by
  induction segs generalizing fuel with
  | nil => cases fuel <;> rfl
  | cons s rest ih =>
    obtain ⟨fuel, rfl⟩ : ∃ k, fuel = k + 1 := ⟨fuel - 1, by simp at hfuel; omega⟩
    obtain ⟨hne, hle⟩ := hsizes s (by simp)
    rw [List.flatten_cons, segments.eq_3 _ _ _ (by simp [hne])]
    cases rest with
    | nil =>
      simp [List.take_of_length_le hle, List.drop_of_length_le hle]
      cases fuel <;> rfl
    | cons s' rest =>
      have hs := hfull s (by simp)
      rw [List.take_left' hs, List.drop_left' hs, ih (fun t ht => hsizes t (by simp_all))
        (fun t ht => hfull t (by simp_all)) (by simpa using hfuel)]

namespace SendMessage.Batch

variable {is6 endBatch : Bool} {m : SendMessage} {gsoSize : Nat} {segs : List (List UInt8)}

theorem start (is6 : Bool) (buf : SendBuffer) (hne : buf.data ≠ []) :
    (SendMessage.start buf).Batch is6 buf.data.length false [buf.data] := by
  constructor <;> simp [SendMessage.start, hne, udpSegmentMaxDatagrams]

theorem append (h : m.Batch is6 gsoSize false segs) {buf : SendBuffer} (hne : buf.data ≠ [])
    (hfits : buf.data.length + m.data.length ≤ maxPayloadLen is6)
    (hle : buf.data.length ≤ gsoSize) (hcnt : segs.length < udpSegmentMaxDatagrams) :
    (m.append buf).Batch is6 gsoSize (decide (buf.data.length < gsoSize))
      (segs ++ [buf.data]) where
  data := by simp [SendMessage.append, h.data]
  nonempty := by simp
  sizes := by
    intro s hs
    rcases List.mem_append.mp hs with hs | hs
    · exact h.sizes s hs
    · simp_all
  full := by simpa using h.last rfl
  last := by
    intro hend s hs
    rcases List.mem_append.mp hs with hs | hs
    · exact h.last rfl s hs
    · simp at hend hs
      rw [hs]
      omega
  fits := by
    intro _
    simp [SendMessage.append]
    omega
  few := by
    simp
    omega

/-- The segment size is one of the lengths, so a message that fits keeps it in 16 bits. -/
theorem gsoSize_lt (h : m.Batch is6 gsoSize endBatch segs) (hcnt : 1 < segs.length) :
    gsoSize < 2 ^ 16 := by
  obtain ⟨s, t, rest, rfl⟩ : ∃ s t rest, segs = s :: t :: rest := by
    match segs, hcnt with
    | s :: t :: rest, _ => exact ⟨s, t, rest, rfl⟩
  have hs := h.full s (by simp)
  have hfits := h.fits hcnt
  rw [h.data, List.flatten_cons, List.length_append, hs] at hfits
  unfold maxPayloadLen at hfits
  split at hfits <;> omega

theorem length_le_data (h : m.Batch is6 gsoSize endBatch segs) :
    segs.length ≤ m.data.length := by
  have hone : ∀ n ∈ segs.map List.length, 1 ≤ n := by
    intro n hn
    obtain ⟨s, hs, rfl⟩ := List.mem_map.mp hn
    exact List.length_pos_iff.mpr (h.sizes s hs).1
  simpa [h.data, List.length_flatten] using List.length_le_sum_of_one_le _ hone

/-- A closed message goes out as the datagrams it holds, within the limits. -/
theorem closed (h : m.Batch is6 gsoSize endBatch segs) (m' : SendMessage)
    (hdata : m'.data = m.data)
    (hgso : m'.gso = if 1 < segs.length then some (gsoSize % 2 ^ 16) else none) :
    m'.datagrams = segs ∧ m'.Legal is6 := by
  have hsegs : m'.datagrams = segs := by
    unfold SendMessage.datagrams
    by_cases hcnt : 1 < segs.length
    · simp only [hgso, hcnt, if_true, Nat.mod_eq_of_lt (h.gsoSize_lt hcnt), hdata]
      rw [h.data]
      exact segments_flatten h.sizes h.full (h.data ▸ h.length_le_data)
    · simp only [hgso, hcnt, if_false, hdata, h.data]
      have hpos := List.length_pos_iff.mpr h.nonempty
      obtain ⟨s, rfl⟩ := List.length_eq_one_iff.mp (show segs.length = 1 by omega)
      simp
  refine ⟨hsegs, fun hsome => ⟨?_, hsegs ▸ h.few⟩⟩
  rw [hdata]
  refine h.fits (by_contra fun hcnt => hsome ?_)
  rw [hgso, if_neg hcnt]

end SendMessage.Batch

/-- Induction on the buffers left. The segment size of `base` is set with its last buffer,
at the end of the loop, or when the next message is started. -/
theorem coalesce_datagrams {is6 endBatch : Bool} {base : SendMessage} {gsoSize : Nat}
    {segs : List (List UInt8)} {rest : List SendBuffer}
    (h : base.Batch is6 gsoSize endBatch segs) (hne : ∀ buf ∈ rest, buf.data ≠ [])
    (hgso : base.gso =
      if rest = [] ∧ 1 < segs.length then some (gsoSize % 2 ^ 16) else none) :
    (coalesce is6 base gsoSize segs.length endBatch rest).flatMap SendMessage.datagrams =
        segs ++ rest.map SendBuffer.data ∧
      ∀ m ∈ coalesce is6 base gsoSize segs.length endBatch rest, m.Legal is6 := by
  induction rest generalizing base gsoSize endBatch segs with
  | nil =>
    have hclosed := h.closed base rfl (by simpa using hgso)
    simpa [coalesce] using hclosed
  | cons buf rest ih =>
    have hbuf := hne buf (by simp)
    have hrest : ∀ b ∈ rest, b.data ≠ [] := fun b hb => hne b (by simp [hb])
    have hnone : base.gso = none := by simpa using hgso
    unfold coalesce
    dsimp only
    split
    · rename_i hcond
      obtain ⟨hfits, hle, _, hcnt, rfl⟩ := hcond
      have happ := h.append hbuf hfits hle hcnt
      cases rest with
      | nil =>
        have hclosed := happ.closed ((base.append buf).setGSO gsoSize) rfl
          (by simp [SendMessage.setGSO, h.nonempty])
        simpa [coalesce] using hclosed
      | cons next rest =>
        simpa using ih happ hrest (by simpa [SendMessage.append] using hnone)
    · obtain ⟨hsegs, hlegal⟩ := h.closed
        (if 1 < segs.length then base.setGSO gsoSize else base)
        (by split <;> rfl) (by split <;> simp [SendMessage.setGSO, hnone])
      obtain ⟨hnext, hlegals⟩ := ih (SendMessage.Batch.start is6 buf hbuf) hrest
        (by simp [SendMessage.start])
      refine ⟨?_, ?_⟩
      · simpa [hsegs] using hnext
      · intro m hm
        rcases List.mem_cons.mp hm with rfl | hm
        · exact hlegal
        · exact hlegals m hm

/-- Offloaded, the buffers go out as the same datagrams in the same order as without, and no
message is over the kernel's limits. -/
theorem coalesceMessages_datagrams (is6 : Bool) (bufs : List SendBuffer)
    (hne : ∀ buf ∈ bufs, buf.data ≠ []) :
    (coalesceMessages is6 bufs).flatMap SendMessage.datagrams = bufs.map SendBuffer.data ∧
      ∀ m ∈ coalesceMessages is6 bufs, m.Legal is6 := by
  cases bufs with
  | nil => simp [coalesceMessages]
  | cons buf rest =>
    exact coalesce_datagrams (.start is6 buf (hne buf (by simp)))
      (fun b hb => hne b (by simp [hb])) (by simp [SendMessage.start])

/-- Two full datagrams and a short one in one message, the fourth in the next. -/
theorem coalesceMessages_datagrams_short :
    ((coalesceMessages false [⟨[1, 2], 9⟩, ⟨[3, 4], 0⟩, ⟨[5], 0⟩, ⟨[6], 0⟩]).map
        SendMessage.gso = [some 2, none]) ∧
      (coalesceMessages false [⟨[1, 2], 9⟩, ⟨[3, 4], 0⟩, ⟨[5], 0⟩, ⟨[6], 0⟩]).flatMap
        SendMessage.datagrams = [[1, 2], [3, 4], [5], [6]] :=
  ⟨by decide, (coalesceMessages_datagrams false
    [⟨[1, 2], 9⟩, ⟨[3, 4], 0⟩, ⟨[5], 0⟩, ⟨[6], 0⟩] (by simp)).1⟩

end Nylon.Polyamide
