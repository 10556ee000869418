import ScreenLink.Core.Protocol
import ScreenLink.Video.Transport
import Mathlib.Data.List.AList

/-!
# Identities, the certificate verifier and the trust store

What the network layer uses of `security.rs` and `trust.rs`. Code outside the repository is a parameter
(`Crates`): the hash, the AEAD and the serializer. A device's identity is the fingerprint of its certificate
(`Identity.fingerprint_eq`); the trust store is a map keyed by fingerprint.
-/

namespace ScreenLink

/-- A SHA-256 digest, and a 32-byte key. -/
abbrev Digest := Vector UInt8 32

abbrev SessionKey := Vector UInt8 32

/-- An authenticated cipher, as the `chacha20poly1305` crate offers it: `encrypt key nonce msg aad`, and
`decrypt key nonce msg aad`. Its error carries no information beyond its text. -/
structure Aead where
  encrypt : SessionKey → Bytes → Bytes → Bytes → Option Bytes
  decrypt : SessionKey → Bytes → Bytes → Bytes → Option Bytes
  error : String

/-- The third-party functions the program calls. -/
structure Crates where
  sha256 : Bytes → Digest
  aead : Aead
  /-- `postcard::to_stdvec` of an `InputEvent`. -/
  encodeInput : InputEvent → Option Bytes
  /-- `postcard::from_bytes::<InputEvent>` -/
  decodeInput : Bytes → Option InputEvent
  /-- `postcard::to_stdvec` of a `VideoChunk`. -/
  encodeChunk : VideoChunk → Option Bytes
  /-- The derived `Debug` text of a control message. -/
  debugMsg : ControlMsg → String

/-- The crate-wide error type, as far as the modelled functions meet it. -/
inductive Error
  | io (text : String)
  | serde (text : String)
  | crypto (text : String)
  | frameTooLarge (bytes limit : ℕ)
  | other (text : String)
  deriving DecidableEq

/-- `Error::to_string` -/
def Error.text : Error → String
  | .io text => "i/o error: " ++ text
  | .serde text => "serialization error: " ++ text
  | .crypto text => "realtime channel crypto error: " ++ text
  | .frameTooLarge bytes limit => "frame too large: " ++ toString bytes ++ " bytes (limit " ++ toString limit ++ ")"
  | .other text => text

/-! ### Fingerprints -/

/-- One lowercase hex digit. -/
def hexDigit (n : ℕ) : Char := if n < 10 then Char.ofNat (48 + n) else Char.ofNat (87 + n)

/-- `hex::encode` -/
def hexEncode (bs : Bytes) : String :=
  String.ofList (bs.flatMap fun b => [hexDigit (b.toNat / 16), hexDigit (b.toNat % 16)])

/-- Lowercase hex SHA-256 of a certificate's DER bytes. -/
def fingerprintHex (x : Crates) (cert : Bytes) : String := hexEncode (x.sha256 cert).toList

theorem hexDigit_injective {m n : ℕ} (hm : m < 16) (hn : n < 16) (h : hexDigit m = hexDigit n) : m = n := by
  have hall : ∀ m n : Fin 16, hexDigit m = hexDigit n → m = n := by decide
  exact congrArg Fin.val (hall ⟨m, hm⟩ ⟨n, hn⟩ h)

theorem hexEncode_injective {bs bs' : Bytes} (h : hexEncode bs = hexEncode bs') : bs = bs' := by
  have hchars := String.ofList_injective h
  clear h
  induction bs generalizing bs' with
  | nil =>
    cases bs' with
    | nil => rfl
    | cons b' bs' => cases hchars
  | cons b bs ih =>
    cases bs' with
    | nil => cases hchars
    | cons b' bs' =>
      simp only [List.flatMap_cons, List.cons_append, List.nil_append, List.cons.injEq] at hchars
      obtain ⟨hhigh, hlow, hrest⟩ := hchars
      have hb := b.toNat_lt
      have hb' := b'.toNat_lt
      have hhigh' := hexDigit_injective (by omega) (by omega) hhigh
      have hlow' := hexDigit_injective (by omega) (by omega) hlow
      rw [ih hrest, UInt8.toNat_inj.mp (by omega : b.toNat = b'.toNat)]

theorem sha256_of_fingerprint {x : Crates} {cert cert' : Bytes} (h : fingerprintHex x cert = fingerprintHex x cert') :
    x.sha256 cert = x.sha256 cert' :=
  Vector.toList_inj.mp (hexEncode_injective h)

/-- A device's long-term identity; the fingerprint is that of the certificate. -/
structure Identity (x : Crates) where
  certDer : Bytes
  keyDer : Bytes
  fingerprint : String
  fingerprint_eq : fingerprint = fingerprintHex x certDer

def Identity.deviceId {x : Crates} (id : Identity x) : DeviceId := ⟨id.fingerprint⟩

/-! ### The trust store -/

structure TrustedDevice where
  fingerprint : String
  name : String
  deriving DecidableEq

/-- The set of paired devices, keyed by fingerprint. -/
structure TrustStore where
  devices : AList fun _ : String => TrustedDevice

namespace TrustStore

def empty : TrustStore := ⟨∅⟩

def isTrusted (s : TrustStore) (fingerprint : String) : Bool := (s.devices.lookup fingerprint).isSome

/-- The map update of `trust`; the file write after it is the caller's. -/
def trust (s : TrustStore) (fingerprint name : String) : TrustStore :=
  ⟨s.devices.insert fingerprint ⟨fingerprint, name⟩⟩

/-- The map update of `revoke`. -/
def revoke (s : TrustStore) (fingerprint : String) : TrustStore := ⟨s.devices.erase fingerprint⟩

theorem isTrusted_trust (s : TrustStore) (fp name g : String) :
    (s.trust fp name).isTrusted g = (decide (g = fp) || s.isTrusted g) := by
  by_cases h : g = fp
  · subst h
    simp [isTrusted, trust]
  · simp [isTrusted, trust, AList.lookup_insert_ne h, h]

theorem isTrusted_revoke (s : TrustStore) (fp g : String) :
    (s.revoke fp).isTrusted g = (!decide (g = fp) && s.isTrusted g) := by
  by_cases h : g = fp
  · subst h
    simp [isTrusted, revoke]
  · simp [isTrusted, revoke, AList.lookup_erase_ne h, h]

end TrustStore

/-! ### The certificate verifier -/

/-- What the verifier does with a certificate it sees. -/
inductive VerifyMode
  | pairTofu
  | requireTrusted (store : TrustStore)

/-- `PinnedVerifier::check`: the verdict, and the fingerprint stored in `observed`. -/
def PinnedVerifier.check (x : Crates) (mode : VerifyMode) (cert : Bytes) : Except String Unit × Option String :=
  let fp := fingerprintHex x cert
  match mode with
  | .pairTofu => (.ok (), some fp)
  | .requireTrusted store =>
    if store.isTrusted fp then (.ok (), some fp)
    else (.error "peer certificate is not a trusted (paired) device", some fp)

end ScreenLink
