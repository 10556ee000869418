import ScreenLink.Core.Pairing

/-!
# The encrypted realtime channel

`realtime.rs`: sealing and opening packets `seq || ciphertext`, the sub-key for a second stream, and the 64-packet
replay window. The nonce of packet `seq` is the direction's 4-byte salt followed by `seq`; the epoch is associated
data only.
-/

namespace ScreenLink

/-- `u64::to_be_bytes` -/
def beBytes (v : BitVec 64) : Bytes := BigEndian.encode 8 v.toNat

/-- `u64::from_be_bytes` -/
def ofBeBytes (bs : Bytes) : BitVec 64 := BitVec.ofNat 64 (BigEndian.decode bs)

@[simp] theorem length_beBytes (v : BitVec 64) : (beBytes v).length = 8 := BigEndian.length_encode 8 _

@[simp] theorem ofBeBytes_beBytes (v : BitVec 64) : ofBeBytes (beBytes v) = v := by
  have hv : v.toNat < 256 ^ 8 := v.isLt
  rw [ofBeBytes, beBytes, BigEndian.decode_encode hv]
  simp

theorem beBytes_inj {v w : BitVec 64} (h : beBytes v = beBytes w) : v = w := by
  rw [← ofBeBytes_beBytes v, ← ofBeBytes_beBytes w, h]

/-! ### The replay window -/

/-- Anti-replay sliding window over a 64-packet window. -/
structure ReplayWindow where
  highest : BitVec 64 := 0
  bitmap : BitVec 64 := 0
  seenAny : Bool := false
  deriving DecidableEq

namespace ReplayWindow

def WIDTH : BitVec 64 := 64

/-- Record `seq`; `false` if it is a replay or older than the window. -/
def accept (w : ReplayWindow) (seq : BitVec 64) : ReplayWindow × Bool :=
  if !w.seenAny then
    ({ highest := seq, bitmap := 1, seenAny := true }, true)
  else if w.highest < seq then
    let shift := seq - w.highest
    let bitmap := if WIDTH ≤ shift then 1 else (w.bitmap <<< shift) ||| 1
    ({ w with bitmap := bitmap, highest := seq }, true)
  else
    let diff := w.highest - seq
    if WIDTH ≤ diff then (w, false)
    else
      let mask := (1 : BitVec 64) <<< diff
      if w.bitmap &&& mask ≠ 0 then (w, false)
      else ({ w with bitmap := w.bitmap ||| mask }, true)

end ReplayWindow

/-! ### Sealing and opening -/

def SEQ_LEN : ℕ := 8

def SALT_INITIATOR : Bytes := [83, 76, 1, 0]

def SALT_RESPONDER : Bytes := [83, 76, 2, 0]

/-- Sealing/opening context for one peer connection's realtime channel. -/
structure RealtimeCrypto where
  cipher : SessionKey
  sendSalt : Bytes
  recvSalt : Bytes
  sendSeq : BitVec 64
  replay : ReplayWindow
  aad : Bytes
  deriving DecidableEq

namespace RealtimeCrypto

def new (key : SessionKey) (epoch : BitVec 64) (isInitiator : Bool) : RealtimeCrypto where
  cipher := key
  sendSalt := if isInitiator then SALT_INITIATOR else SALT_RESPONDER
  recvSalt := if isInitiator then SALT_RESPONDER else SALT_INITIATOR
  sendSeq := 0
  replay := {}
  aad := beBytes epoch

def nonce (salt : Bytes) (seq : BitVec 64) : Bytes := salt ++ beBytes seq

end RealtimeCrypto

open RealtimeCrypto in
/-- Seal a payload into the packet `seq(8) || ciphertext||tag`; the sequence number is used up either way. -/
def RealtimeCrypto.seal (x : Crates) (rt : RealtimeCrypto) (plaintext : Bytes) : RealtimeCrypto × Except Error Bytes :=
  let seq := rt.sendSeq
  let rt' := { rt with sendSeq := rt.sendSeq + 1 }
  match x.aead.encrypt rt.cipher (nonce rt.sendSalt seq) plaintext rt.aad with
  | none => (rt', .error (.crypto x.aead.error))
  | some ct => (rt', .ok (beBytes seq ++ ct))

theorem RealtimeCrypto.seal_fst (x : Crates) (rt : RealtimeCrypto) (plaintext : Bytes) :
    (rt.seal x plaintext).1 = { rt with sendSeq := rt.sendSeq + 1 } := by
  unfold RealtimeCrypto.seal
  dsimp only
  split <;> rfl

open RealtimeCrypto in
/-- Open a packet: authenticate first, then ask the replay window. -/
def RealtimeCrypto.open (x : Crates) (rt : RealtimeCrypto) (packet : Bytes) :
    RealtimeCrypto × Except Error (BitVec 64 × Bytes) :=
  if packet.length < SEQ_LEN then (rt, .error (.crypto "short packet"))
  else
    let seq := ofBeBytes (packet.take SEQ_LEN)
    match x.aead.decrypt rt.cipher (nonce rt.recvSalt seq) (packet.drop SEQ_LEN) rt.aad with
    | none => (rt, .error (.crypto ("decrypt/auth failed: " ++ x.aead.error)))
    | some pt =>
      let (replay, fresh) := rt.replay.accept seq
      if !fresh then ({ rt with replay := replay },
        .error (.crypto ("replayed or too-old packet seq=" ++ toString seq.toNat)))
      else ({ rt with replay := replay }, .ok (seq, pt))

theorem RealtimeCrypto.open_fst (x : Crates) (rt : RealtimeCrypto) (packet : Bytes) :
    ∃ replay, (rt.open x packet).1 = { rt with replay := replay } := by
  unfold RealtimeCrypto.open
  dsimp only
  split
  · exact ⟨rt.replay, rfl⟩
  · split
    · exact ⟨rt.replay, rfl⟩
    · split <;> exact ⟨_, rfl⟩

/-- Derive an independent 32-byte sub-key for a separate stream. -/
def deriveSubkey (x : Crates) (base : SessionKey) (label : Bytes) : SessionKey :=
  x.sha256 (asBytes "screenlink-subkey-v1" ++ base.toList ++ [0] ++ label)

end ScreenLink
