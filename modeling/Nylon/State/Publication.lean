import Nylon.State.Distribution
import Nylon.State.Expansion
import Nylon.State.KeyText

/-!
Publication of a central configuration (`BundleConfig` of `state/distribution.go`).
The publisher checks the configuration as it is written; a node that applies it, or
starts with it, expands it first. What the publisher lets through can therefore be
refused by every node.
-/

namespace Nylon.State

open Netip Lib

/-- The encoders that belong to the decoders. Signing and sealing draw random bytes. -/
structure PublishLibraries extends BundleLibraries where
  encodeBase64 : Bytes → Bytes
  sealAEAD : (key : NyPublicKey) → (nonce plainText : Bytes) → Bytes
  sign : (key : NyPrivateKey) → (random data : Bytes) → Except String Bytes
  pubkey : NyPrivateKey → NyPublicKey
  marshal : CentralCfg PrefixHealth → Bytes

def signBundle (pub : PublishLibraries) (random data : Bytes) (key : NyPrivateKey) :
    Except String Bytes := do
  let sig ← pub.sign key random data
  return sig ++ data

def sealBundle (pub : PublishLibraries) (nonce data : Bytes) (key : NyPublicKey) : Bytes :=
  nonce ++ pub.sealAEAD key nonce data

/-- The bundle of a configuration file at the time `now`, with the random bytes that
are drawn. -/
def bundleConfig (libs : ConfigLibraries) (pub : PublishLibraries) (config : Bytes)
    (rootKey : NyPrivateKey) (now : Int) (random nonce : Bytes) : Except String Bytes := do
  let cfg ← pub.unmarshal config
  centralConfigValidator libs cfg
  let plainText := pub.marshal {cfg with timestamp := now}
  let bundle ← signBundle pub random plainText rootKey
  return pub.encodeBase64 (sealBundle pub nonce bundle (pub.pubkey rootKey))

/-- What is encoded, sealed, signed and written under a key is read back with it. -/
structure RoundTrips (pub : PublishLibraries) (rootKey : NyPrivateKey)
    (cfg : CentralCfg PrefixHealth) : Prop where
  base64 : ∀ data, pub.decodeBase64 (pub.encodeBase64 data) = .ok data
  aead : ∀ nonce data, nonce.length = nonceSizeX → pub.openAEAD (pub.pubkey rootKey) nonce
      (pub.sealAEAD (pub.pubkey rootKey) nonce data) = .ok data
  signature : ∀ random data sig, pub.sign rootKey random data = .ok sig →
    sig.length = signatureSize ∧ pub.verify (pub.pubkey rootKey) data sig = true
  yaml : pub.unmarshal (pub.marshal cfg) = .ok cfg

section Bundle

variable {libs : ConfigLibraries} {pub : PublishLibraries} {rootKey : NyPrivateKey}
  {cfg : CentralCfg PrefixHealth}

theorem openBundle_sealBundle (hround : RoundTrips pub rootKey cfg) {nonce : Bytes}
    (hnonce : nonce.length = nonceSizeX) (data : Bytes) :
    openBundle pub.toBundleLibraries (sealBundle pub nonce data (pub.pubkey rootKey))
      (pub.pubkey rootKey) = .ok data := by
  have hlong : ¬ (sealBundle pub nonce data (pub.pubkey rootKey)).length < nonceSizeX := by
    rw [sealBundle, List.length_append, hnonce]
    omega
  rw [openBundle, if_neg hlong, sealBundle, List.take_left' hnonce, List.drop_left' hnonce]
  exact hround.aead nonce data hnonce

theorem verifyBundle_signBundle (hround : RoundTrips pub rootKey cfg) {random data bundle : Bytes}
    (h : signBundle pub random data rootKey = .ok bundle) :
    verifyBundle pub.toBundleLibraries bundle (pub.pubkey rootKey) = .ok data := by
  obtain ⟨sig, hsig, hbundle⟩ := bind_eq_ok h
  obtain rfl := Except.ok.inj hbundle
  obtain ⟨hlen, hverify⟩ := hround.signature random data sig hsig
  have hlong : ¬ (sig ++ data).length < signatureSize := by
    rw [List.length_append, hlen]
    omega
  rw [verifyBundle, if_neg hlong]
  simp only [List.take_left' hlen, List.drop_left' hlen, hverify]
  rfl

/-- The timestamp is not among the things that are checked. -/
theorem centralConfigValidator_timestamp (c : CentralCfg PrefixHealth) (now : Int) :
    centralConfigValidator libs {c with timestamp := now} = centralConfigValidator libs c :=
  rfl

end Bundle

/-- What the publisher has bundled is read back by a node, and passes the checks that
follow the expansion exactly if the host prefixes of the configuration are apart. -/
theorem bundle_applies_iff (libs : ConfigLibraries) (pub : PublishLibraries) (config : Bytes)
    (rootKey : NyPrivateKey) (now : Int) (random nonce bundle : Bytes)
    (c : CentralCfg PrefixHealth) (hconfig : pub.unmarshal config = .ok c)
    (hnonce : nonce.length = nonceSizeX)
    (hround : RoundTrips pub rootKey {c with timestamp := now})
    (hbundle : bundleConfig libs pub config rootKey now random nonce = .ok bundle) :
    ∃ cfg, unbundleConfig libs pub.toBundleLibraries bundle (pub.pubkey rootKey) = .ok cfg ∧
      (PassesExpanded libs cfg ↔ HostsApart libs c) := by
  unfold bundleConfig at hbundle
  obtain ⟨c', hc', hchecked⟩ := bind_eq_ok hbundle
  obtain rfl := Except.ok.inj (hc'.symm.trans hconfig)
  obtain ⟨_, hvalid, hrest⟩ := bind_eq_ok hchecked
  obtain ⟨signed, hsigned, hencoded⟩ := bind_eq_ok hrest
  obtain rfl := Except.ok.inj hencoded
  refine ⟨{c' with timestamp := now}, ?_, ?_⟩
  · rw [unbundleConfig, hround.base64]
    refine bind_eq_ok_iff.mpr ⟨_, rfl, bind_eq_ok_iff.mpr
      ⟨signed, openBundle_sealBundle hround hnonce signed, bind_eq_ok_iff.mpr
        ⟨_, verifyBundle_signBundle hround hsigned, bind_eq_ok_iff.mpr
          ⟨_, hround.yaml, bind_eq_ok_iff.mpr ⟨(), ?_, rfl⟩⟩⟩⟩⟩
    rw [centralConfigValidator_timestamp]
    exact hvalid
  · have hpasses := passesExpanded_iff (c := {c' with timestamp := now})
      ((centralConfigValidator_timestamp c' now).trans hvalid)
    exact hpasses.trans ⟨fun h => ⟨h.valid, h.distinct, h.unwritten⟩,
      fun h => ⟨h.valid, h.distinct, h.unwritten⟩⟩

section Example

/-- A router with the address `10.0.0.1` that writes the prefix of one host. -/
def addressedRouter (host timestamp : UInt8) : CentralCfg PrefixHealth where
  dist := none
  routers := [⟨⟨"a", 1, [some (.v4 0x0A000001)],
    [.static (some (addrToPrefix (.v4 (0x0A000000 + .ofNat 32 host.toNat)))) 0], 0⟩, [], false⟩]
  clients := []
  graph := []
  timestamp := timestamp.toNat
  excludeIPs := []

/-- The sum of the bytes depends on the data and on the key. -/
def sampleTag (key : NyPublicKey) (data : Bytes) : Bytes :=
  .replicate signatureSize (data.foldl (· + ·) (.ofNat key.toNat))

/-- A cipher that adds the key to every byte. The file of a configuration has the host
and the timestamp. -/
def samplePublisher : PublishLibraries where
  decodeBase64 := .ok
  encodeBase64 := id
  openAEAD key _ cipherText := .ok (cipherText.map (· - .ofNat key.toNat))
  sealAEAD key _ plainText := plainText.map (· + .ofNat key.toNat)
  verify key data signature := signature == sampleTag key data
  sign key _ data := .ok (sampleTag key data)
  pubkey := id
  unmarshal
    | [host, timestamp] => .ok (addressedRouter host timestamp)
    | _ => .error "not a configuration"
  marshal c :=
    let hosts := c.routers.flatMap fun router => router.prefixes.filterMap fun health =>
      match health.getPrefix with
      | some ⟨.v4 bits, _, _⟩ => some (.ofNat bits.toNat)
      | _ => none
    hosts ++ [.ofNat c.timestamp.toNat]

theorem samplePublisher_roundTrips (rootKey : NyPrivateKey) {c : CentralCfg PrefixHealth}
    (h : samplePublisher.unmarshal (samplePublisher.marshal c) = .ok c) :
    RoundTrips samplePublisher rootKey c where
  base64 _ := rfl
  aead _ data _ := by simp [samplePublisher, Function.comp_def]
  signature _ data sig h := by
    obtain rfl := Except.ok.inj h
    exact ⟨List.length_replicate, beq_self_eq_true _⟩
  yaml := h

def plainConfigLibraries : ConfigLibraries where
  toLower := Char.toLower
  parseURL url := .ok ⟨"", url⟩
  formatPrefix _ := ""
  formatHealth _ := ""

/-- A router that writes the prefix of another host is applied. -/
theorem bundle_applies_iff_other_host : ∃ bundle cfg,
      bundleConfig plainConfigLibraries samplePublisher [2, 5] 7 9 []
        (List.replicate nonceSizeX 0) = .ok bundle ∧
      unbundleConfig plainConfigLibraries samplePublisher.toBundleLibraries bundle 7 = .ok cfg ∧
      (PassesExpanded plainConfigLibraries cfg ↔
        HostsApart plainConfigLibraries (addressedRouter 2 5)) := by
  obtain ⟨bundle, hbundle, -⟩ := exists_of_any (x := bundleConfig plainConfigLibraries
    samplePublisher [2, 5] 7 9 [] (List.replicate nonceSizeX 0)) (p := fun _ => true)
    (by decide +kernel)
  obtain ⟨cfg, hcfg, hiff⟩ := bundle_applies_iff plainConfigLibraries samplePublisher [2, 5] 7 9 []
    (List.replicate nonceSizeX 0) bundle (addressedRouter 2 5) rfl List.length_replicate
    (samplePublisher_roundTrips 7 rfl) hbundle
  exact ⟨bundle, cfg, hbundle, hcfg, hiff⟩

/-- A router that writes the host prefix of its address: the publisher accepts the
configuration, and its expansion has the prefix twice. -/
theorem bundled_host_prefix_refused : ∃ bundle cfg,
      bundleConfig plainConfigLibraries samplePublisher [1, 5] 7 9 []
        (List.replicate nonceSizeX 0) = .ok bundle ∧
      unbundleConfig plainConfigLibraries samplePublisher.toBundleLibraries bundle 7 = .ok cfg ∧
      ¬ PassesExpanded plainConfigLibraries cfg := by
  obtain ⟨bundle, hbundle, hread⟩ := exists_of_any (x := bundleConfig plainConfigLibraries
    samplePublisher [1, 5] 7 9 [] (List.replicate nonceSizeX 0))
    (p := fun bundle => (unbundleConfig plainConfigLibraries samplePublisher.toBundleLibraries
      bundle 7).toOption = some (addressedRouter 1 9)) (by decide +kernel)
  refine ⟨bundle, _, hbundle, toOption_eq_some (of_decide_eq_true hread), ?_⟩
  rintro ⟨expanded, hexpanded, hvalid⟩
  have hrefused : ((expandCentralConfig (addressedRouter 1 9)).any fun expanded =>
      (centralConfigValidator plainConfigLibraries expanded).toOption.isSome) = false := by
    decide +kernel
  rw [hexpanded, Option.any_some, hvalid] at hrefused
  cases hrefused

end Example

end Nylon.State
