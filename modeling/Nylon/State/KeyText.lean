import Nylon.Lib.Base64
import Nylon.Lib.BigEndian
import Nylon.Lib.Go
import Nylon.State.Config

/-!
Keys as texts (`state/serialize.go`). A key is written in base64 and read back from
it. What is decoded is converted to an array of 32 bytes without a look at its
length: a conversion from fewer bytes panics, and one from more keeps the first 32.
Go strings are byte strings here, so that an error can quote the text.
-/

namespace Nylon.State

open Lib

/-- The 32 bytes of a private key. -/
abbrev NyPrivateKey := BitVec 256

def noiseKeySize : Nat := 32

def utf8 (s : String) : List UInt8 := s.toUTF8.toList

/-- The array of a key as a slice. -/
def keyBytes (k : BitVec 256) : List UInt8 := BigEndian.bytes noiseKeySize k.toNat

/-- The conversion of a slice to an array. -/
def toKeyArray (data : List UInt8) : Go (BitVec 256) :=
  if data.length < noiseKeySize then
    .error (.call "cannot convert slice to array: length is less than 32")
  else return .ofNat 256 (BigEndian.value (data.take noiseKeySize))

def marshalKeyText (codec : StrictCodec) (k : BitVec 256) : List UInt8 :=
  codec.encode (keyBytes k)

/-- What `UnmarshalText` returns and the key it leaves. The two key types differ in
the text of the error. -/
def unmarshalKeyText (codec : StrictCodec) (failure : List UInt8 → String → List UInt8)
    (k : BitVec 256) (text : List UInt8) : Go (Option (List UInt8) × BitVec 256) :=
  match codec.decode text with
  | .error err => return (some (failure text err), k)
  | .ok data => do
    let key ← toKeyArray data
    return (none, key)

def NyPrivateKey.marshalText (codec : StrictCodec) (k : NyPrivateKey) : List UInt8 :=
  marshalKeyText codec k

def NyPublicKey.marshalText (codec : StrictCodec) (k : NyPublicKey) : List UInt8 :=
  marshalKeyText codec k

def NyPrivateKey.unmarshalText (codec : StrictCodec) (k : NyPrivateKey)
    (text : List UInt8) : Go (Option (List UInt8) × NyPrivateKey) :=
  unmarshalKeyText codec
    (fun _ err => utf8 "failed to decode private key: " ++ utf8 err) k text

def NyPublicKey.unmarshalText (codec : StrictCodec) (k : NyPublicKey)
    (text : List UInt8) : Go (Option (List UInt8) × NyPublicKey) :=
  unmarshalKeyText codec
    (fun text err =>
      utf8 "failed to decode public key (" ++ text ++ utf8 "): " ++ utf8 err) k text

/-- The text is the encoding of the bytes of a key. -/
def IsKeyText (codec : StrictCodec) (text : List UInt8) : Prop :=
  ∃ data, data.length = noiseKeySize ∧ text = codec.encode data

/-- The call returns an error and leaves the key as it was. -/
def Rejects (k : BitVec 256) (result : Go (Option (List UInt8) × BitVec 256)) : Prop :=
  ∃ err, result = .ok (some err, k)

/-- A text that is not that of a key is rejected. -/
def RejectsOthers (codec : StrictCodec)
    (unmarshal : BitVec 256 → List UInt8 → Go (Option (List UInt8) × BitVec 256))
    (k : BitVec 256) (text : List UInt8) : Prop :=
  ¬ IsKeyText codec text → Rejects k (unmarshal k text)

/-- If the text encodes anything, it encodes the bytes of a key. -/
def EncodesOnlyKeys (codec : StrictCodec) (text : List UInt8) : Prop :=
  ∀ data, text = codec.encode data → data.length = noiseKeySize

section Array

theorem length_keyBytes (k : BitVec 256) : (keyBytes k).length = noiseKeySize :=
  BigEndian.length_bytes _ _

theorem toKeyArray_keyBytes (k : BitVec 256) : toKeyArray (keyBytes k) = .ok k := by
  have hlen := length_keyBytes k
  have hvalue : BigEndian.value (keyBytes k) = k.toNat := by
    rw [keyBytes, BigEndian.value_bytes]
    exact Nat.mod_eq_of_lt k.isLt
  rw [toKeyArray, if_neg hlen.ge.not_gt, List.take_of_length_le hlen.le, hvalue,
    BitVec.ofNat_toNat, BitVec.setWidth_eq]
  rfl

end Array

section Unmarshal

variable (codec : StrictCodec) (failure : List UInt8 → String → List UInt8)

theorem unmarshal_marshal (k old : BitVec 256) :
    unmarshalKeyText codec failure old (marshalKeyText codec k) = .ok (none, k) := by
  rw [unmarshalKeyText, marshalKeyText, codec.decode_encode]
  simp only [toKeyArray_keyBytes, Go.ok_bind]
  rfl

/-- Whatever can be decoded is not rejected: it is converted, or the call panics. -/
theorem not_rejects_encode (k : BitVec 256) (data : List UInt8) :
    ¬ Rejects k (unmarshalKeyText codec failure k (codec.encode data)) := by
  rintro ⟨err, h⟩
  rw [unmarshalKeyText, codec.decode_encode] at h
  cases hkey : toKeyArray data with
  | ok key =>
    simp only [hkey, Go.ok_bind] at h
    cases h
  | error p =>
    simp only [hkey] at h
    cases h

theorem rejects_of_not_encoded {text : List UInt8} (k : BitVec 256)
    (h : ∀ data, text ≠ codec.encode data) :
    Rejects k (unmarshalKeyText codec failure k text) := by
  rw [unmarshalKeyText]
  cases hdecode : codec.decode text with
  | error err => exact ⟨_, rfl⟩
  | ok data => exact absurd (codec.decode_eq_ok_iff.mp hdecode) (h data)

theorem isKeyText_encode_iff (data : List UInt8) :
    IsKeyText codec (codec.encode data) ↔ data.length = noiseKeySize := by
  constructor
  · rintro ⟨data', hlen, heq⟩
    have hdecode := codec.decode_encode data
    rw [heq, codec.decode_encode] at hdecode
    exact Except.ok.inj hdecode ▸ hlen
  · intro hlen
    exact ⟨data, hlen, rfl⟩

theorem rejectsOthers_iff (k : BitVec 256) (text : List UInt8) :
    RejectsOthers codec (unmarshalKeyText codec failure) k text ↔ EncodesOnlyKeys codec text := by
  constructor
  · rintro h data rfl
    by_contra hlen
    exact not_rejects_encode codec failure k data
      (h (mt (isKeyText_encode_iff codec data).mp hlen))
  · intro h hno
    exact rejects_of_not_encoded codec failure k fun data heq => hno ⟨data, h data heq, heq⟩

end Unmarshal

/-- For both key types the text of a key gives the key back. A text that is not that
of a key is rejected exactly if it does not encode any other number of bytes. -/
theorem keyText_codec (codec : StrictCodec) :
    (∀ k old, NyPrivateKey.unmarshalText codec old (NyPrivateKey.marshalText codec k) =
      .ok (none, k)) ∧
    (∀ k old, NyPublicKey.unmarshalText codec old (NyPublicKey.marshalText codec k) =
      .ok (none, k)) ∧
    ∀ k text,
      (RejectsOthers codec (NyPrivateKey.unmarshalText codec) k text ↔ EncodesOnlyKeys codec text) ∧
      (RejectsOthers codec (NyPublicKey.unmarshalText codec) k text ↔ EncodesOnlyKeys codec text) :=
  ⟨fun k old => unmarshal_marshal codec _ k old, fun k old => unmarshal_marshal codec _ k old,
    fun k text => ⟨rejectsOthers_iff codec _ k text, rejectsOthers_iff codec _ k text⟩⟩

/-- `AAAA` is base64 of three zero bytes. It is not the text of a key, and reading it
panics for both key types. -/
theorem unmarshalText_short_panics : ¬ IsKeyText Base64.codec (utf8 "AAAA") ∧
      NyPrivateKey.unmarshalText Base64.codec 0 (utf8 "AAAA") =
        .error (.call "cannot convert slice to array: length is less than 32") ∧
      NyPublicKey.unmarshalText Base64.codec 0 (utf8 "AAAA") =
        .error (.call "cannot convert slice to array: length is less than 32") ∧
      ¬ RejectsOthers Base64.codec (NyPublicKey.unmarshalText Base64.codec) 0
        (utf8 "AAAA") := by
  have htext : utf8 "AAAA" = Base64.codec.encode [0, 0, 0] := by decide +kernel
  have hno : ¬ IsKeyText Base64.codec (utf8 "AAAA") := by
    rw [htext, isKeyText_encode_iff]
    decide
  refine ⟨hno, by decide +kernel, by decide +kernel, fun h => ?_⟩
  have hrejects := h hno
  rw [htext] at hrejects
  exact not_rejects_encode Base64.codec _ 0 [0, 0, 0] hrejects

/-- Thirty-three bytes are read as the key of their first thirty-two. -/
example (b : UInt8) (k old : BitVec 256) :
    NyPublicKey.unmarshalText Base64.codec old (Base64.codec.encode (keyBytes k ++ [b])) =
      .ok (none, k) := by
  have hlen := length_keyBytes k
  have harray : toKeyArray (keyBytes k ++ [b]) = toKeyArray (keyBytes k) := by
    unfold toKeyArray
    rw [List.take_left' hlen, List.take_of_length_le hlen.le, List.length_append, hlen]
    rfl
  rw [NyPublicKey.unmarshalText, unmarshalKeyText, Base64.codec.decode_encode]
  simp only [harray, toKeyArray_keyBytes, Go.ok_bind]
  rfl

end Nylon.State
