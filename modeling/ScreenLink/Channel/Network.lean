import ScreenLink.Channel.Replay
import ScreenLink.Lib.Machine

/-!
# A realtime channel over a hostile network

Two contexts with the same key and epoch, a sender and a receiver with opposite `isInitiator` flags, and a network
that hands the receiver any packet it likes: genuine, dropped, duplicated, reordered, truncated, forged, reflected
from the receiver itself or sealed under another epoch. `State.log` records every encryption made under the key,
`Forged` is the one thing an ideal cipher rules out: a packet that decrypts and was never produced.

The invariant (`Inv`) links the three histories: an encryption under this epoch and the sender's salt is one of the
sender's seals (`log`), and the receiver's window tracks the set of numbers it has opened (`replay`). Authenticating
before recording is what keeps the second link under forged traffic (`open_error`).
-/

namespace ScreenLink

open SlidingWindow

/-- Decryption undoes encryption under the same key, nonce and associated data. -/
def Aead.Correct (a : Aead) : Prop :=
  ∀ key nonce msg aad ct, a.encrypt key nonce msg aad = some ct → a.decrypt key nonce ct aad = some msg

/-! ### One call of `open` -/

namespace RealtimeCrypto

theorem open_ok {x : Crates} {rt : RealtimeCrypto} {packet pt : Bytes} {seq : BitVec 64}
    (h : (rt.open x packet).2 = .ok (seq, pt)) :
    SEQ_LEN ≤ packet.length ∧ seq = ofBeBytes (packet.take SEQ_LEN) ∧
      x.aead.decrypt rt.cipher (nonce rt.recvSalt seq) (packet.drop SEQ_LEN) rt.aad = some pt ∧
      (rt.replay.accept seq).2 = true ∧
      (rt.open x packet).1 = { rt with replay := (rt.replay.accept seq).1 } := by
  unfold RealtimeCrypto.open at h ⊢
  by_cases hlen : packet.length < SEQ_LEN
  · simp [hlen] at h
  · simp only [hlen, if_false] at h ⊢
    cases hdec : x.aead.decrypt rt.cipher (nonce rt.recvSalt (ofBeBytes (packet.take SEQ_LEN)))
        (packet.drop SEQ_LEN) rt.aad with
    | none => simp [hdec] at h
    | some msg =>
      simp only [hdec] at h ⊢
      by_cases hfresh : (rt.replay.accept (ofBeBytes (packet.take SEQ_LEN))).2 = true
      · simp only [hfresh, Bool.not_true, Bool.false_eq_true, if_false, Except.ok.injEq, Prod.mk.injEq] at h ⊢
        obtain ⟨rfl, rfl⟩ := h
        exact ⟨Nat.not_lt.mp hlen, rfl, hdec, hfresh, rfl⟩
      · simp [hfresh] at h

/-- An `open` that fails changes nothing. -/
theorem open_error {x : Crates} {rt : RealtimeCrypto} {packet : Bytes} {e : Error}
    (h : (rt.open x packet).2 = .error e) : (rt.open x packet).1 = rt := by
  unfold RealtimeCrypto.open at h ⊢
  by_cases hlen : packet.length < SEQ_LEN
  · simp [hlen]
  · simp only [hlen, if_false] at h ⊢
    cases hdec : x.aead.decrypt rt.cipher (nonce rt.recvSalt (ofBeBytes (packet.take SEQ_LEN)))
        (packet.drop SEQ_LEN) rt.aad with
    | none => rfl
    | some msg =>
      simp only [hdec] at h ⊢
      by_cases hfresh : (rt.replay.accept (ofBeBytes (packet.take SEQ_LEN))).2 = true
      · simp [hfresh] at h
      · rw [Bool.not_eq_true] at hfresh
        simp [hfresh, ReplayWindow.accept_false hfresh]

theorem open_genuine {x : Crates} {rt : RealtimeCrypto} {seq : BitVec 64} {ct pt : Bytes}
    (hdec : x.aead.decrypt rt.cipher (nonce rt.recvSalt seq) ct rt.aad = some pt)
    (hfresh : (rt.replay.accept seq).2 = true) :
    (rt.open x (beBytes seq ++ ct)).2 = .ok (seq, pt) := by
  have htake : (beBytes seq ++ ct).take SEQ_LEN = beBytes seq :=
    List.take_left' (length_beBytes seq)
  have hdrop : (beBytes seq ++ ct).drop SEQ_LEN = ct := List.drop_left' (length_beBytes seq)
  have hlen : ¬ (beBytes seq ++ ct).length < SEQ_LEN := by
    rw [List.length_append, length_beBytes]
    exact Nat.not_lt.mpr (Nat.le_add_right 8 _)
  unfold RealtimeCrypto.open
  rw [if_neg hlen, htake, hdrop, ofBeBytes_beBytes]
  simp [hdec, hfresh]

theorem nonce_inj {salt : Bytes} {m n : BitVec 64} (h : nonce salt m = nonce salt n) : m = n :=
  beBytes_inj (List.append_cancel_left h)

theorem nonce_salt_ne (m n : BitVec 64) : nonce SALT_INITIATOR m ≠ nonce SALT_RESPONDER n := by
  intro h
  have := congrArg (fun bs : Bytes => bs[2]?) h
  simp [nonce, SALT_INITIATOR, SALT_RESPONDER] at this

end RealtimeCrypto

/-! ### The system -/

namespace Channel

open RealtimeCrypto

/-- One encryption made under the channel's key. -/
structure Sealed where
  nonce : Bytes
  aad : Bytes
  msg : Bytes
  ct : Bytes
  deriving DecidableEq

structure State where
  /-- The sender's context. -/
  s : RealtimeCrypto
  /-- The receiver's context. -/
  r : RealtimeCrypto
  /-- History: every encryption under the key. -/
  log : List Sealed
  /-- History: the payload and the result of each `seal` call of the sender. -/
  sent : List (Bytes × Except Error Bytes)
  /-- History: what the receiver's `open` returned `Ok` for. -/
  opened : List (BitVec 64 × Bytes)

inductive Event
  | sealS (payload : Bytes)
  | sealR (payload : Bytes)
  /-- A context of the same key and another epoch seals. -/
  | sealOther (epoch : BitVec 64) (isInitiator : Bool) (seq : BitVec 64) (payload : Bytes)
  | deliver (packet : Bytes)

variable (x : Crates) (key : SessionKey) (epoch : BitVec 64) (init : Bool)

def initial : State where
  s := new key epoch init
  r := new key epoch (!init)
  log := []
  sent := []
  opened := []

/-- The encryption one `seal` makes, if the cipher accepts the payload. -/
def encryption (rt : RealtimeCrypto) (payload : Bytes) : List Sealed :=
  match x.aead.encrypt rt.cipher (nonce rt.sendSalt rt.sendSeq) payload rt.aad with
  | some ct => [⟨nonce rt.sendSalt rt.sendSeq, rt.aad, payload, ct⟩]
  | none => []

def step (st : State) : Event → Option State
  | .sealS p => some { st with
      s := (st.s.seal x p).1
      log := st.log ++ encryption x st.s p
      sent := st.sent ++ [(p, (st.s.seal x p).2)] }
  | .sealR p => some { st with r := (st.r.seal x p).1, log := st.log ++ encryption x st.r p }
  | .sealOther epoch' init' seq p =>
    if epoch' = epoch then none
    else some { st with log := st.log ++ encryption x { new key epoch' init' with sendSeq := seq } p }
  | .deliver packet => some { st with
      r := (st.r.open x packet).1
      opened := st.opened ++ match (st.r.open x packet).2 with
        | .ok res => [res]
        | .error _ => [] }

/-- The network hands the receiver a packet that decrypts although no such encryption was ever made. -/
def Forged (st : State) : Event → Prop
  | .deliver packet => ∃ pt, x.aead.decrypt st.r.cipher
      (nonce st.r.recvSalt (ofBeBytes (packet.take SEQ_LEN))) (packet.drop SEQ_LEN) st.r.aad = some pt ∧
      ⟨nonce st.r.recvSalt (ofBeBytes (packet.take SEQ_LEN)), st.r.aad, pt, packet.drop SEQ_LEN⟩ ∉ st.log
  | _ => False

/-- The numbers opened so far. -/
def openedSeqs (st : State) : Set ℕ := {n | ∃ res ∈ st.opened, res.1.toNat = n}

/-! ### The invariant -/

/-- The salt of the direction a context with this flag sends in. -/
def saltOf (init : Bool) : Bytes := if init then SALT_INITIATOR else SALT_RESPONDER

theorem saltOf_ne (init : Bool) (m n : BitVec 64) : nonce (saltOf init) m ≠ nonce (saltOf !init) n := by
  cases init with
  | false => exact (nonce_salt_ne n m).symm
  | true => exact nonce_salt_ne m n

theorem new_eq (key : SessionKey) (epoch : BitVec 64) (init : Bool) :
    new key epoch init = ⟨key, saltOf init, saltOf !init, 0, {}, beBytes epoch⟩ := by
  cases init <;> rfl

structure Inv (st : State) : Prop where
  sender : st.s.cipher = key ∧ st.s.sendSalt = saltOf init ∧ st.s.aad = beBytes epoch ∧
    st.s.sendSeq = BitVec.ofNat 64 st.sent.length
  receiver : st.r.cipher = key ∧ st.r.sendSalt = saltOf (!init) ∧ st.r.recvSalt = saltOf init ∧
    st.r.aad = beBytes epoch
  /-- An encryption under this epoch and the sender's salt is one of the sender's seals. -/
  log : ∀ e ∈ st.log, e.aad = beBytes epoch → ∀ seq, e.nonce = nonce (saltOf init) seq →
    ∃ k, st.sent[k]? = some (e.msg, .ok (beBytes seq ++ e.ct)) ∧ seq = BitVec.ofNat 64 k
  /-- What the sender sealed is what the cipher made of it, and decrypts. -/
  sent : ∀ k p packet, st.sent[k]? = some (p, .ok packet) → ∃ ct,
    packet = beBytes (BitVec.ofNat 64 k) ++ ct ∧
      x.aead.encrypt key (nonce (saltOf init) (BitVec.ofNat 64 k)) p (beBytes epoch) = some ct
  replay : st.r.replay.Tracks (openedSeqs st)
  distinct : (st.opened.map Prod.fst).Nodup

theorem mem_openedSeqs_snoc (st : State) (r : RealtimeCrypto) (res : BitVec 64 × Bytes) :
    openedSeqs { st with r := r, opened := st.opened ++ [res] } = insert res.1.toNat (openedSeqs st) := by
  ext n
  simp only [openedSeqs, Set.mem_ofPred_eq, Set.mem_insert_iff, List.mem_append, List.mem_singleton]
  constructor
  · rintro ⟨r, hr | rfl, rfl⟩
    · exact Or.inr ⟨r, hr, rfl⟩
    · exact Or.inl rfl
  · rintro (rfl | ⟨r, hr, rfl⟩)
    · exact ⟨res, Or.inr rfl, rfl⟩
    · exact ⟨r, Or.inl hr, rfl⟩

theorem inv_initial : Inv x key epoch init (initial key epoch init) where
  sender := by simp [initial, new_eq]
  receiver := by simp [initial, new_eq]
  log := by simp [initial]
  sent := by simp [initial]
  replay := by
    have : openedSeqs (initial key epoch init) = ∅ := by
      ext n
      simp [openedSeqs, initial]
    rw [this]
    simpa [initial, new_eq] using ReplayWindow.tracks_default
  distinct := by simp [initial]

variable {x key epoch init}

theorem mem_encryption {rt : RealtimeCrypto} {p : Bytes} {e : Sealed} (h : e ∈ encryption x rt p) :
    e.nonce = nonce rt.sendSalt rt.sendSeq ∧ e.aad = rt.aad ∧ e.msg = p ∧
      x.aead.encrypt rt.cipher (nonce rt.sendSalt rt.sendSeq) p rt.aad = some e.ct := by
  unfold encryption at h
  split at h
  · rename_i ct hct
    rw [List.mem_singleton] at h
    subst h
    exact ⟨rfl, rfl, rfl, hct⟩
  · simp at h

theorem seal_eq (rt : RealtimeCrypto) (p : Bytes) :
    rt.seal x p = ({ rt with sendSeq := rt.sendSeq + 1 },
      match x.aead.encrypt rt.cipher (nonce rt.sendSalt rt.sendSeq) p rt.aad with
      | none => .error (.crypto x.aead.error)
      | some ct => .ok (beBytes rt.sendSeq ++ ct)) := by
  unfold RealtimeCrypto.seal
  cases h : x.aead.encrypt rt.cipher (nonce rt.sendSalt rt.sendSeq) p rt.aad <;> simp only [h]

theorem sealS_inv {st : State} (h : Inv x key epoch init st) (p : Bytes) :
    Inv x key epoch init { st with
      s := (st.s.seal x p).1
      log := st.log ++ encryption x st.s p
      sent := st.sent ++ [(p, (st.s.seal x p).2)] } := by
  obtain ⟨hcipher, hsalt, haad, hseq⟩ := h.sender
  refine ⟨?_, h.receiver, ?_, ?_, h.replay, h.distinct⟩
  · rw [seal_eq]
    refine ⟨hcipher, hsalt, haad, ?_⟩
    dsimp only
    rw [hseq, List.length_append, List.length_singleton, BitVec.ofNat_add]
    rfl
  · intro e he haade seq hnonce
    rcases List.mem_append.mp he with hold | hnew
    · obtain ⟨k, hk, rfl⟩ := h.log e hold haade seq hnonce
      exact ⟨k, List.getElem?_append_left (List.getElem?_eq_some_iff.mp hk).1 ▸ hk, rfl⟩
    · obtain ⟨hn, -, rfl, hct⟩ := mem_encryption hnew
      rw [hn, hsalt, hseq] at hnonce
      obtain rfl := nonce_inj hnonce
      refine ⟨st.sent.length, ?_, rfl⟩
      rw [List.getElem?_append_right (le_refl _), Nat.sub_self, List.getElem?_cons_zero, seal_eq, hct, hseq]
  · intro k q packet hk
    rcases Nat.lt_or_ge k st.sent.length with hlt | hge
    · exact h.sent k q packet (List.getElem?_append_left hlt ▸ hk)
    · rw [List.getElem?_append_right hge, List.getElem?_singleton] at hk
      split_ifs at hk with hzero
      have hk' : k = st.sent.length := by omega
      subst hk'
      rw [seal_eq, Option.some.injEq, Prod.mk.injEq] at hk
      obtain ⟨rfl, hres⟩ := hk
      rw [hcipher, hsalt, haad, hseq] at hres
      split at hres
      · simp at hres
      · rename_i ct hct
        cases hres
        exact ⟨ct, rfl, hct⟩

theorem log_append_inv {st : State} (h : Inv x key epoch init st) {rt : RealtimeCrypto} {p : Bytes}
    {r : RealtimeCrypto} (hr : r.cipher = st.r.cipher ∧ r.sendSalt = st.r.sendSalt ∧
      r.recvSalt = st.r.recvSalt ∧ r.aad = st.r.aad ∧ r.replay = st.r.replay)
    (hother : rt.aad = beBytes epoch → rt.sendSalt = saltOf (!init)) :
    Inv x key epoch init { st with r := r, log := st.log ++ encryption x rt p } := by
  obtain ⟨hr1, hr2, hr3, hr4, hr5⟩ := hr
  refine ⟨h.sender, ?_, ?_, h.sent, ?_, h.distinct⟩
  · simpa only [hr1, hr2, hr3, hr4] using h.receiver
  · intro e he haade seq hnonce
    rcases List.mem_append.mp he with hold | hnew
    · exact h.log e hold haade seq hnonce
    · obtain ⟨hn, ha, -, -⟩ := mem_encryption hnew
      rw [hn, hother (ha ▸ haade)] at hnonce
      exact absurd hnonce.symm (saltOf_ne init _ _)
  · show r.replay.Tracks _
    rw [hr5]
    exact h.replay

/-- A packet the receiver opens is the packet the sender's seal returned, if it is not a forgery. -/
theorem genuine_of_open_ok {st : State} (h : Inv x key epoch init st) {packet pt : Bytes} {seq : BitVec 64}
    (hideal : ¬ Forged x st (.deliver packet)) (hok : (st.r.open x packet).2 = .ok (seq, pt)) :
    ∃ k, st.sent[k]? = some (pt, .ok packet) ∧ seq = BitVec.ofNat 64 k := by
  obtain ⟨-, -, hsalt, haad⟩ := h.receiver
  obtain ⟨hlen, rfl, hdec, -⟩ := open_ok hok
  have hmem : ⟨nonce st.r.recvSalt (ofBeBytes (packet.take SEQ_LEN)), st.r.aad, pt, packet.drop SEQ_LEN⟩ ∈ st.log := by
    by_contra hnot
    exact hideal ⟨pt, hdec, hnot⟩
  obtain ⟨k, hk, hseq⟩ := h.log _ hmem haad _ (by rw [hsalt])
  refine ⟨k, ?_, hseq⟩
  have hbytes : beBytes (ofBeBytes (packet.take SEQ_LEN)) = packet.take SEQ_LEN := by
    have hlen8 : (packet.take SEQ_LEN).length = 8 := by
      rw [List.length_take]
      exact Nat.min_eq_left hlen
    have hlt : BigEndian.decode (packet.take SEQ_LEN) < 2 ^ 64 := by
      have := BigEndian.decode_lt (packet.take SEQ_LEN)
      rwa [hlen8] at this
    rw [beBytes, ofBeBytes, BitVec.toNat_ofNat, Nat.mod_eq_of_lt hlt]
    have := BigEndian.encode_decode (packet.take SEQ_LEN)
    rwa [hlen8] at this
  rw [hk, hbytes, List.take_append_drop]

theorem deliver_inv {st : State} (h : Inv x key epoch init st) (packet : Bytes) :
    Inv x key epoch init { st with
      r := (st.r.open x packet).1
      opened := st.opened ++ match (st.r.open x packet).2 with
        | .ok res => [res]
        | .error _ => [] } := by
  cases hres : (st.r.open x packet).2 with
  | error e =>
    rw [open_error hres]
    simpa using h
  | ok res =>
    obtain ⟨seq, pt⟩ := res
    obtain ⟨-, -, -, haccept, hr⟩ := open_ok hres
    dsimp only
    rcases ReplayWindow.accept_cases h.replay seq with ⟨hfresh, -, htracks⟩ | ⟨-, hfalse⟩
    · refine ⟨h.sender, ?_, h.log, h.sent, ?_, ?_⟩
      · rw [hr]
        exact h.receiver
      · rw [mem_openedSeqs_snoc, hr]
        exact htracks
      · rw [List.map_append, List.nodup_append]
        refine ⟨h.distinct, List.nodup_singleton _, ?_⟩
        rintro n hn m hm rfl
        rw [List.map_singleton, List.mem_singleton] at hm
        subst hm
        obtain ⟨res, hmem, heq⟩ := List.mem_map.mp hn
        exact hfresh.1 ⟨res, hmem, congrArg BitVec.toNat heq⟩
    · rw [hfalse] at haccept
      cases haccept

theorem step_inv {st st' : State} {e : Event} (h : Inv x key epoch init st)
    (hstep : step x key epoch st e = some st') : Inv x key epoch init st' := by
  cases e with
  | sealS p =>
    cases hstep
    exact sealS_inv h p
  | sealR p =>
    cases hstep
    rw [seal_eq]
    exact log_append_inv h ⟨rfl, rfl, rfl, rfl, rfl⟩ fun _ => h.receiver.2.1
  | sealOther epoch' init' seq p =>
    simp only [step] at hstep
    split_ifs at hstep with hne
    cases hstep
    refine log_append_inv (r := st.r) h ⟨rfl, rfl, rfl, rfl, rfl⟩ fun haad => ?_
    rw [new_eq] at haad
    exact absurd (beBytes_inj haad) hne
  | deliver packet =>
    cases hstep
    exact deliver_inv h packet

theorem run_inv {es : List Event} {st : State}
    (hrun : Machine.run (step x key epoch) (initial key epoch init) es = some st) : Inv x key epoch init st :=
  Machine.run_invariant (inv_initial x key epoch init) (fun _ _ _ => step_inv) es st hrun

end Channel

end ScreenLink
