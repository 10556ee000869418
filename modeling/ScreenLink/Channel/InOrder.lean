import ScreenLink.Channel.Network
import ScreenLink.Channel.Replay

/-!
# Packets that arrive in order

A network that delivers packets of a sender in order, among packets that it makes up and packets that it delivers again
(`Mixed`). A receiver that has opened smaller numbers only opens the next packet (`Opened.open_next`), and nothing that
the network adds (`Opened.open_added`).
-/

namespace ScreenLink.Channel

open RealtimeCrypto

section

variable (x : Crates) (key : SessionKey) (epoch : BitVec 64)

/-- The packet is what an initiator's context makes of the payload under this number. -/
def SealedAs (seq : BitVec 64) (payload packet : Bytes) : Prop :=
  ∃ ct, x.aead.encrypt key (nonce SALT_INITIATOR seq) payload (beBytes epoch) = some ct ∧ packet = beBytes seq ++ ct

/-- A packet that the network adds: one that has been delivered before, or one that does not authenticate. -/
def Added (done : List Bytes) (packet : Bytes) : Prop :=
  packet ∈ done ∨ packet.length < SEQ_LEN ∨
    x.aead.decrypt key (nonce SALT_INITIATOR (ofBeBytes (packet.take SEQ_LEN))) (packet.drop SEQ_LEN) (beBytes epoch) = none

/-- The second list of packets arrives in order, among others that the network adds; the third is what arrives. The
packets in the first have arrived before. -/
inductive Mixed : List Bytes → List Bytes → List Bytes → Prop
  | nil (done : List Bytes) : Mixed done [] []
  | genuine (done : List Bytes) (packet : Bytes) (rest arriving : List Bytes) (h : Mixed (done ++ [packet]) rest arriving) :
    Mixed done (packet :: rest) (packet :: arriving)
  | added (done : List Bytes) (packet : Bytes) (rest arriving : List Bytes) (hadded : Added x key epoch done packet)
    (h : Mixed done rest arriving) : Mixed done rest (packet :: arriving)

end

/-- The context is the receiver's, and has opened exactly the numbers in `A`. -/
structure Opened (key : SessionKey) (epoch : BitVec 64) (rt : RealtimeCrypto) (A : Set ℕ) : Prop where
  cipher : rt.cipher = key
  salt : rt.recvSalt = SALT_INITIATOR
  aad : rt.aad = beBytes epoch
  window : rt.replay.Tracks A

namespace Opened

variable {x : Crates} {key : SessionKey} {epoch : BitVec 64} {rt : RealtimeCrypto} {A : Set ℕ}

theorem new (key : SessionKey) (epoch : BitVec 64) : Opened key epoch (.new key epoch false) ∅ :=
  ⟨rfl, rfl, rfl, ReplayWindow.tracks_default⟩

/-- An added packet is not opened. -/
theorem open_added (h : Opened key epoch rt A) {done : List Bytes}
    (hdone : ∀ p ∈ done, ∃ seq pt, SealedAs x key epoch seq pt p ∧ seq.toNat ∈ A) {packet : Bytes}
    (hadded : Added x key epoch done packet) : ∃ err, (rt.open x packet).2 = .error err := by
  cases hopen : (rt.open x packet).2 with
  | error err => exact ⟨err, rfl⟩
  | ok res =>
    obtain ⟨seq, pt⟩ := res
    obtain ⟨hlen, hseq, hdec, haccept, -⟩ := open_ok hopen
    rcases hadded with hmem | hshort | hnone
    · obtain ⟨seq', pt', ⟨ct, -, rfl⟩, hseq'⟩ := hdone packet hmem
      have htake : (beBytes seq' ++ ct).take SEQ_LEN = beBytes seq' := List.take_left' (length_beBytes seq')
      rw [htake, ofBeBytes_beBytes] at hseq
      rcases ReplayWindow.accept_cases h.window seq with ⟨hfresh, -⟩ | ⟨-, hfalse⟩
      · exact absurd (hseq ▸ hseq') hfresh.1
      · rw [hfalse] at haccept
        cases haccept
    · omega
    · rw [hseq, h.cipher, h.salt, h.aad, hnone] at hdec
      cases hdec

/-- A packet with a number above all that have been opened is opened. -/
theorem open_next (hcorrect : x.aead.Correct) (h : Opened key epoch rt A) {seq : BitVec 64} (habove : ∀ a ∈ A, a < seq.toNat)
    {pt packet : Bytes} (hsealed : SealedAs x key epoch seq pt packet) :
    (rt.open x packet).2 = .ok (seq, pt) ∧ Opened key epoch (rt.open x packet).1 (insert seq.toNat A) := by
  obtain ⟨ct, hencrypt, rfl⟩ := hsealed
  rcases ReplayWindow.accept_cases h.window seq with ⟨-, haccept, htracks⟩ | ⟨hnot, -⟩
  · have hopen : (rt.open x (beBytes seq ++ ct)).2 = .ok (seq, pt) := by
      refine open_genuine ?_ haccept
      rw [h.cipher, h.salt, h.aad]
      exact hcorrect _ _ _ _ _ hencrypt
    obtain ⟨-, -, -, -, hrt⟩ := open_ok hopen
    refine ⟨hopen, ?_⟩
    rw [hrt]
    exact ⟨h.cipher, h.salt, h.aad, htracks⟩
  · refine absurd ⟨fun hmem => lt_irrefl _ (habove _ hmem), fun a ha => ?_⟩ hnot
    have := habove a ha
    omega

end Opened

end ScreenLink.Channel
