import ScreenLink.Core.Realtime
import ScreenLink.Session.Types

/-!
# What the sessions of a process share

`AppCore`, with the record of what the process has done to the outside (events to the UI, injected input, remote
clipboard text), and the errors a session ends with.
-/

namespace ScreenLink

structure RgbaFrame where
  width : BitVec 32
  height : BitVec 32
  rgba : Bytes

/-- A call of the input injector. -/
inductive InjectorCall
  | setCursorNorm (x y : F32)
  | inject (event : InputEvent)
  deriving DecidableEq

/-- Shared by every session of the process. -/
structure AppCore (x : Crates) where
  identity : Identity x
  trust : TrustStore
  realtimePort : BitVec 16
  deviceName : String
  os : String
  /-- `cfg!(feature = "extend")` -/
  extend : Bool
  inboundRt : Option RealtimeCrypto
  videoFrame : Option RgbaFrame
  /-- The events sent to the UI. -/
  events : List NetEvent
  /-- The calls made to the injector. -/
  injector : List InjectorCall
  /-- The remote texts handed to a clipboard thread. -/
  applied : List String

namespace AppCore

variable {x : Crates}

def deviceInfo (core : AppCore x) : DeviceInfo where
  id := core.identity.deviceId
  name := core.deviceName
  os := core.os
  realtimePort := core.realtimePort
  caps := { extendMode := core.extend }

def emit (core : AppCore x) (event : NetEvent) : AppCore x := { core with events := core.events ++ [event] }

end AppCore

/-- Why `run_session` returned an error. -/
inductive SessionError
  | failed (error : Error)
  | protocolMismatch (peer us : BitVec 16)
  | expectedHello (got : ControlMsg)
  | peerCancelled (reason : String)
  | unexpectedDuringPairing (got : ControlMsg)
  | closedDuringPairing
  | localCancel
  | stopped (reason : String)
  deriving DecidableEq

/-- The text of the error. -/
def SessionError.text (x : Crates) : SessionError → String
  | .failed error => error.text
  | .protocolMismatch peer us =>
    "protocol mismatch (peer " ++ toString peer.toNat ++ ", us " ++ toString us.toNat ++ ")"
  | .expectedHello got => "expected Hello, got " ++ x.debugMsg got
  | .peerCancelled reason => "peer cancelled pairing: " ++ reason
  | .unexpectedDuringPairing got => "unexpected during pairing: " ++ x.debugMsg got
  | .closedDuringPairing => "connection closed during pairing"
  | .localCancel => "local cancel during pairing"
  | .stopped reason => reason

/-! ### Three devices -/

/-- The certificates of three devices, shortened to a few bytes. -/
def certAlice : Bytes := [48, 1, 65]

def certBob : Bytes := [48, 1, 66]

def certMallory : Bytes := [48, 1, 77]

def fpAlice : String := "91f8d46eebd89aaa873f0493b628a10b6641b78a8f3b84596ce7a51432a6634c"

def fpBob : String := "47a39923157f4e69861bbb744409b33b93991406b0f7e70e67c14a5fb40bf865"

def fpMallory : String := "40cb8464010d0b8f1aa9bc1afde906e5345d2c7165ef215d915cd714e476bb61"

/-- The key of the devices' connections in examples. -/
def demoKey : SessionKey := Vector.replicate 32 9

/-- SHA-256 on the three certificates, on what is hashed for the codes of their pairs, and for the key of a mirror
stream. -/
def demoDigests : List (Bytes × Digest) :=
  [(certAlice, #v[145, 248, 212, 110, 235, 216, 154, 170, 135, 63, 4, 147, 182, 40, 161, 11, 102, 65, 183,
      138, 143, 59, 132, 89, 108, 231, 165, 20, 50, 166, 99, 76]),
    (certBob, #v[71, 163, 153, 35, 21, 127, 78, 105, 134, 27, 187, 116, 68, 9, 179, 59, 147, 153, 20, 6,
      176, 247, 231, 14, 103, 193, 74, 95, 180, 11, 248, 101]),
    (certMallory, #v[64, 203, 132, 100, 1, 13, 11, 143, 26, 169, 188, 26, 253, 233, 6, 229, 52, 93, 44, 113,
      101, 239, 33, 93, 145, 92, 215, 20, 228, 118, 187, 97]),
    (comparisonPinInput fpAlice fpBob, #v[31, 180, 244, 137, 106, 157, 229, 95, 120, 120, 199, 94, 192, 130,
      141, 207, 82, 137, 222, 154, 96, 193, 182, 69, 47, 248, 81, 6, 132, 222, 105, 93]),
    (comparisonPinInput fpAlice fpMallory, #v[99, 121, 78, 58, 109, 75, 18, 221, 177, 9, 97, 102, 192, 50,
      179, 35, 126, 234, 134, 233, 132, 229, 227, 135, 63, 130, 120, 168, 241, 137, 176, 16]),
    (comparisonPinInput fpBob fpMallory, #v[0, 97, 253, 132, 229, 133, 255, 180, 71, 244, 131, 44, 48, 213,
      136, 186, 220, 165, 199, 250, 231, 57, 90, 123, 211, 120, 245, 9, 50, 153, 143, 215]),
    (asBytes "screenlink-subkey-v1" ++ demoKey.toList ++ [0] ++ asBytes "video", #v[122, 231, 238, 164, 253, 158,
      218, 237, 95, 108, 91, 174, 77, 231, 97, 43, 216, 134, 189, 214, 116, 146, 160, 170, 157, 46, 190, 26, 53, 40,
      21, 122])]

/-- ChaCha20-Poly1305 on two chunks sent under the number 0, in streams with the epochs 5 and 6. -/
def demoAead : Aead where
  encrypt key nonce msg aad :=
    if key ≠ (demoDigests.getLast (by simp [demoDigests])).2 ∨ nonce ≠ RealtimeCrypto.nonce SALT_INITIATOR 0 then none
    else if msg = [0, 0, 1, 1, 3, 1, 2, 3] ∧ aad = beBytes 5 then
      some [45, 88, 163, 37, 117, 19, 186, 70, 176, 20, 195, 219, 69, 202, 116, 132, 159, 18, 28, 201, 162, 104, 121,
        156]
    else if msg = [0, 0, 1, 1, 3, 4, 5, 6] ∧ aad = beBytes 6 then
      some [45, 88, 163, 37, 117, 22, 189, 67, 74, 173, 96, 144, 133, 57, 97, 13, 142, 34, 75, 81, 208, 91, 65, 253]
    else none
  decrypt _ _ _ _ := none
  error := "aead::Error"

/-- `postcard::to_stdvec` of a chunk all of whose numbers fit in one byte. -/
def demoEncodeChunk (chunk : VideoChunk) : Option Bytes :=
  if chunk.frameId < 128 ∧ chunk.index < 128 ∧ chunk.count < 128 ∧ chunk.data.length < 128 then
    some ([UInt8.ofNat chunk.frameId.toNat, UInt8.ofNat chunk.index.toNat, UInt8.ofNat chunk.count.toNat,
      if chunk.keyframe then 1 else 0, UInt8.ofNat chunk.data.length] ++ chunk.data)
  else none

/-- The third-party functions, where the three devices need them. -/
def demoCrates : Crates where
  sha256 bytes := (demoDigests.lookup bytes).getD (Vector.replicate 32 0)
  aead := demoAead
  encodeInput _ := none
  decodeInput _ := none
  encodeChunk := demoEncodeChunk
  debugMsg _ := ""

/-- A device with this certificate, that trusts the given fingerprints. -/
def demoCore (cert : Bytes) (name : String) (trusted : List String) : AppCore demoCrates where
  identity := ⟨cert, [], fingerprintHex demoCrates cert, rfl⟩
  trust := trusted.foldl (fun store fp => store.trust fp "") .empty
  realtimePort := 7078
  deviceName := name
  os := "linux"
  extend := false
  inboundRt := none
  videoFrame := none
  events := []
  injector := []
  applied := []

/-- The same device, with other third-party functions. -/
def AppCore.over (core : AppCore demoCrates) (x : Crates) : AppCore x where
  identity := ⟨core.identity.certDer, core.identity.keyDer, fingerprintHex x core.identity.certDer, rfl⟩
  trust := core.trust
  realtimePort := core.realtimePort
  deviceName := core.deviceName
  os := core.os
  extend := core.extend
  inboundRt := core.inboundRt
  videoFrame := core.videoFrame
  events := core.events
  injector := core.injector
  applied := core.applied

example : fingerprintHex demoCrates certAlice = fpAlice := by decide

/-- Alice and Bob, who have not paired. -/
def strangers : Side → AppCore demoCrates
  | .a => demoCore certAlice "alice" []
  | .b => demoCore certBob "bob" []

end ScreenLink
