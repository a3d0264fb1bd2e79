import Nylon.State.Validation

/-!
Bundles of central configurations (`state/distribution.go`). A bundle is the
encoding of an encrypted, signed configuration; whoever knows the public key of
the distribution can read it, and the holder of the private key has signed it.
-/

namespace Nylon.State

abbrev Bytes := List UInt8

/-- The decoders, the cipher and the signature scheme, with the errors they
report. -/
structure BundleLibraries where
  decodeBase64 : Bytes → Except String Bytes
  openAEAD : (key : NyPublicKey) → (nonce cipherText : Bytes) → Except String Bytes
  verify : (key : NyPublicKey) → (data signature : Bytes) → Bool
  unmarshal : Bytes → Except String (CentralCfg PrefixHealth)

/-- `chacha20poly1305.NonceSizeX`. -/
def nonceSizeX : Nat := 24

/-- `x25519.SignatureSize`. -/
def signatureSize : Nat := 64

variable (libs : ConfigLibraries) (bundles : BundleLibraries)

def openBundle (data : Bytes) (key : NyPublicKey) : Except String Bytes :=
  if data.length < nonceSizeX then .error "invalid bundle, too small"
  else bundles.openAEAD key (data.take nonceSizeX) (data.drop nonceSizeX)

def verifyBundle (data : Bytes) (key : NyPublicKey) : Except String Bytes :=
  if data.length < signatureSize then .error "invalid signature: too short"
  else
    let signature := data.take signatureSize
    let plainText := data.drop signatureSize
    if !bundles.verify key plainText signature then .error "invalid signature"
    else .ok plainText

def unbundleConfig (bundleStr : Bytes) (pubKey : NyPublicKey) :
    Except String (CentralCfg PrefixHealth) := do
  let bundle ← bundles.decodeBase64 bundleStr
  let bundle ← openBundle bundles bundle pubKey
  let bundle ← verifyBundle bundles bundle pubKey
  let cfg ← bundles.unmarshal bundle
  centralConfigValidator libs cfg
  return cfg

/-- What is read from a repository, given what a file or a server has there. At
most `maxSize` bytes are read from a server, and nothing with another scheme. -/
def fetchBody (repo : String) (maxSize : Nat) (served : Except String Bytes) :
    Except String Bytes := do
  let url ← (libs.parseURL repo).mapError
    ("failed to parse repo URL " ++ repo ++ ": " ++ ·)
  if url.scheme = "file" then served
  else if url.scheme = "http" ∨ url.scheme = "https" then served.map (·.take maxSize)
  else return []

def fetchConfig (repo : String) (key : NyPublicKey) (maxSize : Nat)
    (served : Except String Bytes) : Except String (CentralCfg PrefixHealth) := do
  let cfgBody ← fetchBody libs repo maxSize served
  (unbundleConfig libs bundles cfgBody key).mapError
    ("failed to unbundle config from " ++ repo ++ ": " ++ ·)

end Nylon.State
