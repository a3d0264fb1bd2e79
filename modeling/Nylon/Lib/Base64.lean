import Mathlib.Tactic

/-!
Base64 with padding, as a strict codec: a text is accepted exactly if it is the
encoding of the bytes it decodes to. In particular the bits that the last digit
does not need are zero, and nothing follows the padding.
-/

namespace Lib

/-- An encoding of byte strings as texts whose decoder accepts nothing else. -/
structure StrictCodec where
  encode : List UInt8 → List UInt8
  decode : List UInt8 → Except String (List UInt8)
  decode_encode : ∀ data, decode (encode data) = .ok data
  encode_of_decode : ∀ {text data}, decode text = .ok data → encode data = text

theorem StrictCodec.decode_eq_ok_iff (codec : StrictCodec) {text data : List UInt8} :
    codec.decode text = .ok data ↔ text = codec.encode data := by
  constructor
  · intro h
    exact (codec.encode_of_decode h).symm
  · rintro rfl
    exact codec.decode_encode data

namespace Base64

def encodeDigit (n : Nat) : UInt8 :=
  .ofNat (if n < 26 then 65 + n else if n < 52 then 71 + n else if n < 62 then n - 4
    else if n = 62 then 43 else 47)

def decodeDigit (c : UInt8) : Option Nat :=
  if 65 ≤ c.toNat ∧ c.toNat ≤ 90 then some (c.toNat - 65)
  else if 97 ≤ c.toNat ∧ c.toNat ≤ 122 then some (c.toNat - 71)
  else if 48 ≤ c.toNat ∧ c.toNat ≤ 57 then some (c.toNat + 4)
  else if c.toNat = 43 then some 62
  else if c.toNat = 47 then some 63
  else none

def pad : UInt8 := 61

def encode : List UInt8 → List UInt8
  | [] => []
  | [a] => [encodeDigit (a.toNat / 4), encodeDigit (a.toNat % 4 * 16), pad, pad]
  | [a, b] =>
    [encodeDigit (a.toNat / 4), encodeDigit (a.toNat % 4 * 16 + b.toNat / 16),
      encodeDigit (b.toNat % 16 * 4), pad]
  | a :: b :: c :: rest =>
    encodeDigit (a.toNat / 4) :: encodeDigit (a.toNat % 4 * 16 + b.toNat / 16) ::
      encodeDigit (b.toNat % 16 * 4 + c.toNat / 64) :: encodeDigit (c.toNat % 64) ::
      encode rest

/-- The last group of a text, whose fourth character is padding. -/
def decodePadded (w x y : UInt8) : Option (List UInt8) := do
  let p ← decodeDigit w
  let q ← decodeDigit x
  if y = pad then
    if q % 16 = 0 then some [.ofNat (p * 4 + q / 16)] else none
  else
    let r ← decodeDigit y
    if r % 4 = 0 then some [.ofNat (p * 4 + q / 16), .ofNat (q % 16 * 16 + r / 4)]
    else none

/-- A group of four digits stands for three bytes. -/
def decodeGroup (w x y z : UInt8) : Option (List UInt8) := do
  let p ← decodeDigit w
  let q ← decodeDigit x
  let r ← decodeDigit y
  let s ← decodeDigit z
  return [.ofNat (p * 4 + q / 16), .ofNat (q % 16 * 16 + r / 4), .ofNat (r % 4 * 64 + s)]

def decode : List UInt8 → Option (List UInt8)
  | [] => some []
  | w :: x :: y :: z :: rest =>
    if rest = [] ∧ z = pad then decodePadded w x y
    else do
      let group ← decodeGroup w x y z
      let tail ← decode rest
      return group ++ tail
  | _ => none

section Digits

theorem decodeDigit_encodeDigit : ∀ {n : Nat}, n < 64 → decodeDigit (encodeDigit n) = some n := by
  decide

theorem encodeDigit_ne_pad : ∀ {n : Nat}, n < 64 → encodeDigit n ≠ pad := by
  decide

theorem encodeDigit_of_decodeDigit {c : UInt8} {n : Nat} (h : decodeDigit c = some n) :
    n < 64 ∧ encodeDigit n = c := by
  have hlt := c.toNat_lt
  unfold decodeDigit at h
  unfold encodeDigit
  rw [← UInt8.toNat_inj, UInt8.toNat_ofNat']
  split_ifs at h <;> obtain rfl := Option.some.inj h <;> split_ifs <;> omega

end Digits

section Groups

theorem decodeGroup_encode (a b c : UInt8) :
    decodeGroup (encodeDigit (a.toNat / 4)) (encodeDigit (a.toNat % 4 * 16 + b.toNat / 16))
      (encodeDigit (b.toNat % 16 * 4 + c.toNat / 64)) (encodeDigit (c.toNat % 64)) =
      some [a, b, c] := by
  have ha := a.toNat_lt
  have hb := b.toNat_lt
  have hc := c.toNat_lt
  have h1 : a.toNat / 4 * 4 + (a.toNat % 4 * 16 + b.toNat / 16) / 16 = a.toNat := by omega
  have h2 : (a.toNat % 4 * 16 + b.toNat / 16) % 16 * 16 +
      (b.toNat % 16 * 4 + c.toNat / 64) / 4 = b.toNat := by omega
  have h3 : (b.toNat % 16 * 4 + c.toNat / 64) % 4 * 64 + c.toNat % 64 = c.toNat := by omega
  simp only [decodeGroup, decodeDigit_encodeDigit (show a.toNat / 4 < 64 by omega),
    decodeDigit_encodeDigit (show a.toNat % 4 * 16 + b.toNat / 16 < 64 by omega),
    decodeDigit_encodeDigit (show b.toNat % 16 * 4 + c.toNat / 64 < 64 by omega),
    decodeDigit_encodeDigit (show c.toNat % 64 < 64 by omega), Option.bind_eq_bind,
    Option.bind_some, h1, h2, h3, UInt8.ofNat_toNat]
  rfl

theorem decodePadded_two (a b : UInt8) :
    decodePadded (encodeDigit (a.toNat / 4)) (encodeDigit (a.toNat % 4 * 16 + b.toNat / 16))
      (encodeDigit (b.toNat % 16 * 4)) = some [a, b] := by
  have ha := a.toNat_lt
  have hb := b.toNat_lt
  have h1 : a.toNat / 4 * 4 + (a.toNat % 4 * 16 + b.toNat / 16) / 16 = a.toNat := by omega
  have h2 : (a.toNat % 4 * 16 + b.toNat / 16) % 16 * 16 + b.toNat % 16 * 4 / 4 =
      b.toNat := by omega
  have hzero : b.toNat % 16 * 4 % 4 = 0 := by omega
  have hdigit : b.toNat % 16 * 4 < 64 := by omega
  simp only [decodePadded, decodeDigit_encodeDigit (show a.toNat / 4 < 64 by omega),
    decodeDigit_encodeDigit (show a.toNat % 4 * 16 + b.toNat / 16 < 64 by omega),
    decodeDigit_encodeDigit hdigit, if_neg (encodeDigit_ne_pad hdigit), Option.bind_eq_bind,
    Option.bind_some, hzero, if_true, h1, h2, UInt8.ofNat_toNat]

theorem decodePadded_one (a : UInt8) :
    decodePadded (encodeDigit (a.toNat / 4)) (encodeDigit (a.toNat % 4 * 16)) pad = some [a] := by
  have ha := a.toNat_lt
  have h1 : a.toNat / 4 * 4 + a.toNat % 4 * 16 / 16 = a.toNat := by omega
  have hzero : a.toNat % 4 * 16 % 16 = 0 := by omega
  simp only [decodePadded, decodeDigit_encodeDigit (show a.toNat / 4 < 64 by omega),
    decodeDigit_encodeDigit (show a.toNat % 4 * 16 < 64 by omega), Option.bind_eq_bind,
    Option.bind_some, hzero, if_true, h1, UInt8.ofNat_toNat]

/-- A padded group is the encoding of its one or two bytes. -/
theorem encode_of_decodePadded {w x y : UInt8} {data : List UInt8}
    (h : decodePadded w x y = some data) : encode data = [w, x, y, pad] := by
  simp only [decodePadded, Option.bind_eq_bind, Option.bind_eq_some_iff] at h
  obtain ⟨p, hp, q, hq, h⟩ := h
  obtain ⟨hp64, rfl⟩ := encodeDigit_of_decodeDigit hp
  obtain ⟨hq64, rfl⟩ := encodeDigit_of_decodeDigit hq
  split_ifs at h with hy hzero
  · obtain rfl := Option.some.inj h
    have hbyte : (p * 4 + q / 16) % 256 = p * 4 + q / 16 := by omega
    simp only [encode, UInt8.toNat_ofNat', Nat.reducePow, hbyte, hy]
    rw [show (p * 4 + q / 16) / 4 = p by omega, show (p * 4 + q / 16) % 4 * 16 = q by omega]
  · simp only [Option.bind_eq_some_iff] at h
    obtain ⟨r, hr, h⟩ := h
    obtain ⟨hr64, rfl⟩ := encodeDigit_of_decodeDigit hr
    split_ifs at h with hzero
    obtain rfl := Option.some.inj h
    have hbyte : (p * 4 + q / 16) % 256 = p * 4 + q / 16 := by omega
    have hbyte' : (q % 16 * 16 + r / 4) % 256 = q % 16 * 16 + r / 4 := by omega
    simp only [encode, UInt8.toNat_ofNat', Nat.reducePow, hbyte, hbyte']
    rw [show (p * 4 + q / 16) / 4 = p by omega,
      show (p * 4 + q / 16) % 4 * 16 + (q % 16 * 16 + r / 4) / 16 = q by omega,
      show (q % 16 * 16 + r / 4) % 16 * 4 = r by omega]

theorem encode_of_decodeGroup {w x y z : UInt8} {group : List UInt8}
    (h : decodeGroup w x y z = some group) (rest : List UInt8) :
    encode (group ++ rest) = w :: x :: y :: z :: encode rest := by
  simp only [decodeGroup, Option.bind_eq_bind, Option.bind_eq_some_iff] at h
  obtain ⟨p, hp, q, hq, r, hr, s, hs, h⟩ := h
  obtain ⟨hp64, rfl⟩ := encodeDigit_of_decodeDigit hp
  obtain ⟨hq64, rfl⟩ := encodeDigit_of_decodeDigit hq
  obtain ⟨hr64, rfl⟩ := encodeDigit_of_decodeDigit hr
  obtain ⟨hs64, rfl⟩ := encodeDigit_of_decodeDigit hs
  obtain rfl := Option.some.inj h
  have h1 : (p * 4 + q / 16) % 256 = p * 4 + q / 16 := by omega
  have h2 : (q % 16 * 16 + r / 4) % 256 = q % 16 * 16 + r / 4 := by omega
  have h3 : (r % 4 * 64 + s) % 256 = r % 4 * 64 + s := by omega
  simp only [encode, List.cons_append, List.nil_append, UInt8.toNat_ofNat', Nat.reducePow, h1,
    h2, h3]
  rw [show (p * 4 + q / 16) / 4 = p by omega,
    show (p * 4 + q / 16) % 4 * 16 + (q % 16 * 16 + r / 4) / 16 = q by omega,
    show (q % 16 * 16 + r / 4) % 16 * 4 + (r % 4 * 64 + s) / 64 = r by omega,
    show (r % 4 * 64 + s) % 64 = s by omega]

end Groups

theorem decode_encode (data : List UInt8) : decode (encode data) = some data := by
  induction data using encode.induct with
  | case1 => rfl
  | case2 a => exact (if_pos ⟨rfl, rfl⟩).trans (decodePadded_one a)
  | case3 a b => exact (if_pos ⟨rfl, rfl⟩).trans (decodePadded_two a b)
  | case4 a b c rest ih =>
    have hlast : ¬ (encode rest = [] ∧ encodeDigit (c.toNat % 64) = pad) :=
      fun h => encodeDigit_ne_pad (by omega) h.2
    rw [encode, decode, if_neg hlast, decodeGroup_encode, ih]
    rfl

theorem encode_of_decode {text data : List UInt8} (h : decode text = some data) :
    encode data = text := by
  induction text using decode.induct generalizing data with
  | case1 =>
    obtain rfl := Option.some.inj h
    rfl
  | case2 w x y z rest hlast =>
    rw [decode, if_pos hlast] at h
    rw [hlast.1, hlast.2]
    exact encode_of_decodePadded h
  | case3 w x y z rest hlast ih =>
    rw [decode, if_neg hlast] at h
    simp only [Option.bind_eq_bind, Option.bind_eq_some_iff] at h
    obtain ⟨group, hgroup, tail, htail, h⟩ := h
    obtain rfl := Option.some.inj h
    rw [encode_of_decodeGroup hgroup, ih htail]
  | case4 text hnil hshort => simp [decode] at h

/-- The codec; the position in the text of an error is left out. -/
def codec : StrictCodec where
  encode := encode
  decode text := (decode text).elim (.error "illegal base64 data") .ok
  decode_encode data := by rw [decode_encode]; rfl
  encode_of_decode {text data} h := by
    cases hdecode : decode text with
    | none => rw [hdecode] at h; cases h
    | some found =>
      rw [hdecode] at h
      obtain rfl := Except.ok.inj h
      exact encode_of_decode hdecode

end Base64

end Lib
