import ScreenLink.Channel.Network

/-!
# What the receiver opens

With a correct cipher and no forgery, everything `open` returns was sealed by the sender under that number modulo
`2^64`, no number is opened twice, a failed `open` leaves the receiver as it was, and a genuine packet whose number
is new and less than 64 behind is opened (`channel_safety`). `send_seq` wraps, so "its `seq`-th packet" is true of
the first `2^64` packets only (`payload_of_another_number`).
-/

namespace ScreenLink.Channel

open RealtimeCrypto

instance (x : Crates) (st : State) (e : Event) : Decidable (Forged x st e) :=
  match e with
  | .sealS _ | .sealR _ | .sealOther .. => isFalse id
  | .deliver packet =>
    match h : x.aead.decrypt st.r.cipher (nonce st.r.recvSalt (ofBeBytes (packet.take SEQ_LEN)))
        (packet.drop SEQ_LEN) st.r.aad with
    | none => isFalse (by simp [Forged, h])
    | some pt => decidable_of_iff
        (⟨nonce st.r.recvSalt (ofBeBytes (packet.take SEQ_LEN)), st.r.aad, pt, packet.drop SEQ_LEN⟩ ∉ st.log)
        (by simp [Forged, h])

variable {x : Crates} {key : SessionKey} {epoch : BitVec 64} {init : Bool}

theorem sent_mono {st st' : State} {e : Event} (hstep : step x key epoch st e = some st') {k : ℕ}
    {a : Bytes × Except Error Bytes} (hk : st.sent[k]? = some a) : st'.sent[k]? = some a := by
  cases e with
  | sealS p =>
    cases hstep
    exact List.getElem?_append_left (List.getElem?_eq_some_iff.mp hk).1 ▸ hk
  | sealR p =>
    cases hstep
    exact hk
  | sealOther epoch' init' seq p =>
    simp only [step] at hstep
    split_ifs at hstep
    cases hstep
    exact hk
  | deliver packet =>
    cases hstep
    exact hk

theorem mem_opened_step {st st' : State} {e : Event} (hstep : step x key epoch st e = some st')
    {res : BitVec 64 × Bytes} (hres : res ∈ st'.opened) :
    res ∈ st.opened ∨ ∃ packet, e = .deliver packet ∧ (st.r.open x packet).2 = .ok res := by
  cases e with
  | sealS p =>
    cases hstep
    exact Or.inl hres
  | sealR p =>
    cases hstep
    exact Or.inl hres
  | sealOther epoch' init' seq p =>
    simp only [step] at hstep
    split_ifs at hstep
    cases hstep
    exact Or.inl hres
  | deliver packet =>
    cases hstep
    dsimp only at hres
    rcases List.mem_append.mp hres with hold | hnew
    · exact Or.inl hold
    · split at hnew
      · rename_i r hr
        rw [List.mem_singleton] at hnew
        subst hnew
        exact Or.inr ⟨packet, rfl, hr⟩
      · simp at hnew

/-- Without forgeries, what the receiver opened is what the sender sealed. -/
theorem opened_genuine {es : List Event} {st : State}
    (hrun : Machine.run (step x key epoch) (initial key epoch init) es = some st)
    (hideal : ¬ Machine.Seen (step x key epoch) (Forged x) (initial key epoch init) es) :
    ∀ seq p, (seq, p) ∈ st.opened →
      ∃ k packet, st.sent[k]? = some (p, .ok packet) ∧ seq = BitVec.ofNat 64 k := by
  revert hideal
  refine Machine.run_induction (P := fun es st =>
    ¬ Machine.Seen (step x key epoch) (Forged x) (initial key epoch init) es → ∀ seq p, (seq, p) ∈ st.opened →
      ∃ k packet, st.sent[k]? = some (p, .ok packet) ∧ seq = BitVec.ofNat 64 k) ?_ ?_ es st hrun
  · intro _ seq p hmem
    simp [initial] at hmem
  · intro es t e u hrun ih hlast hideal seq p hmem
    rw [Machine.seen_snoc hrun, not_or] at hideal
    rcases mem_opened_step hlast hmem with hold | ⟨packet, rfl, hok⟩
    · obtain ⟨k, packet, hk, hseq⟩ := ih hideal.1 seq p hold
      exact ⟨k, packet, sent_mono hlast hk, hseq⟩
    · obtain ⟨k, hk, hseq⟩ := genuine_of_open_ok (run_inv hrun) hideal.2 hok
      exact ⟨k, packet, sent_mono hlast hk, hseq⟩

theorem genuine_opens {st : State} (hinv : Inv x key epoch init st) (hcorrect : x.aead.Correct) {k : ℕ}
    {p packet : Bytes} (hk : st.sent[k]? = some (p, .ok packet))
    (hnew : BitVec.ofNat 64 k ∉ st.opened.map Prod.fst)
    (hnear : ∀ n ∈ st.opened.map Prod.fst, n.toNat < (BitVec.ofNat 64 k).toNat + 64) :
    (st.r.open x packet).2 = .ok (BitVec.ofNat 64 k, p) := by
  obtain ⟨ct, rfl, henc⟩ := hinv.sent k p packet hk
  obtain ⟨hcipher, -, hsalt, haad⟩ := hinv.receiver
  have hdec : x.aead.decrypt st.r.cipher (nonce st.r.recvSalt (BitVec.ofNat 64 k)) ct st.r.aad = some p := by
    rw [hcipher, hsalt, haad]
    exact hcorrect _ _ _ _ _ henc
  have hfresh : SlidingWindow.Fresh 64 (openedSeqs st) (BitVec.ofNat 64 k).toNat := by
    constructor
    · rintro ⟨res, hmem, heq⟩
      exact hnew (List.mem_map.mpr ⟨res, hmem, BitVec.eq_of_toNat_eq heq⟩)
    · rintro n ⟨res, hmem, rfl⟩
      exact hnear _ (List.mem_map_of_mem hmem)
  rcases ReplayWindow.accept_cases hinv.replay (BitVec.ofNat 64 k) with ⟨-, haccept, -⟩ | ⟨hnot, -⟩
  · exact open_genuine hdec haccept
  · exact absurd hfresh hnot

/-! ### The safety theorem -/

/-- Safety of the channel, for every order of seals and deliveries: (a) what is opened was sealed by the sender,
under that number (modulo `2^64`, so literally as long as no more than `2^64` packets were sealed); (b) no number is
opened twice; (c) a failing `open` changes nothing, and a genuine packet with a new number less than 64 behind the
highest opened one is opened. -/
theorem channel_safety (hcorrect : x.aead.Correct) {es : List Event} {st : State}
    (hrun : Machine.run (step x key epoch) (initial key epoch init) es = some st)
    (hideal : ¬ Machine.Seen (step x key epoch) (Forged x) (initial key epoch init) es) :
    (∀ seq p, (seq, p) ∈ st.opened →
      (∃ k packet, st.sent[k]? = some (p, .ok packet) ∧ seq = BitVec.ofNat 64 k) ∧
      (st.sent.length ≤ 2 ^ 64 → ∃ packet, st.sent[seq.toNat]? = some (p, .ok packet))) ∧
    (st.opened.map Prod.fst).Nodup ∧
    (∀ packet err, (st.r.open x packet).2 = .error err → (st.r.open x packet).1 = st.r) ∧
    (∀ k p packet, st.sent[k]? = some (p, .ok packet) → BitVec.ofNat 64 k ∉ st.opened.map Prod.fst →
      (∀ n ∈ st.opened.map Prod.fst, n.toNat < (BitVec.ofNat 64 k).toNat + 64) →
      (st.r.open x packet).2 = .ok (BitVec.ofNat 64 k, p)) := by
  have hinv := run_inv hrun
  refine ⟨fun seq p hmem => ?_, hinv.distinct, fun _ _ => open_error, fun k p packet => genuine_opens hinv hcorrect⟩
  obtain ⟨k, packet, hk, rfl⟩ := opened_genuine hrun hideal seq p hmem
  refine ⟨⟨k, packet, hk, rfl⟩, fun hlen => ⟨packet, ?_⟩⟩
  have hlt : k < 2 ^ 64 := (List.getElem?_eq_some_iff.mp hk).1.trans_le hlen
  rw [BitVec.toNat_ofNat, Nat.mod_eq_of_lt hlt]
  exact hk

/-- ChaCha20-Poly1305 on one input, the key `7, 7, …`, number 0 from the initiator and the payload `x`. -/
def chachaEntry : Aead where
  encrypt key nonce msg aad :=
    if key = Vector.replicate 32 7 ∧ nonce = RealtimeCrypto.nonce SALT_INITIATOR 0 ∧ msg = [120] ∧ aad = beBytes 1
    then some [22, 253, 181, 125, 128, 251, 133, 223, 200, 107, 104, 11, 136, 133, 87, 46, 56] else none
  decrypt key nonce ct aad :=
    if key = Vector.replicate 32 7 ∧ nonce = RealtimeCrypto.nonce SALT_INITIATOR 0 ∧ aad = beBytes 1 ∧
      ct = [22, 253, 181, 125, 128, 251, 133, 223, 200, 107, 104, 11, 136, 133, 87, 46, 56]
    then some [120] else none
  error := "aead::Error"

theorem chachaEntry_correct : chachaEntry.Correct := by
  intro key nonce msg aad ct h
  simp only [chachaEntry] at h ⊢
  split_ifs at h with hin
  obtain ⟨rfl, rfl, rfl, rfl⟩ := hin
  cases h
  rw [if_pos ⟨rfl, rfl, rfl, rfl⟩]

def chachaCrates : Crates :=
  ⟨fun _ => Vector.replicate 32 0, chachaEntry, fun _ => none, fun _ => none, fun _ => none, fun _ => ""⟩

/-- A packet, a truncated copy of it and a replay. -/
def replayRun : List Event :=
  let packet := beBytes 0 ++ [22, 253, 181, 125, 128, 251, 133, 223, 200, 107, 104, 11, 136, 133, 87, 46, 56]
  [.sealS [120], .deliver (packet.take 12), .deliver packet, .deliver packet]

theorem channel_safety_replayRun :
    ∃ st, Machine.run (step chachaCrates (Vector.replicate 32 7) 1)
        (initial (Vector.replicate 32 7) 1 true) replayRun = some st ∧
      st.opened = [(0, [120])] ∧ (st.opened.map Prod.fst).Nodup := by
  obtain ⟨st, hst, hopened⟩ : ∃ st, Machine.run (step chachaCrates (Vector.replicate 32 7) 1)
      (initial (Vector.replicate 32 7) 1 true) replayRun = some st ∧ st.opened = [(0, [120])] :=
    ⟨_, rfl, by decide⟩
  exact ⟨st, hst, hopened, (channel_safety chachaEntry_correct hst (by decide)).2.1⟩

/-! ### Where the number wraps -/

/-- A toy cipher: the nonce and the associated data in front of the message. -/
def taggedAead : Aead where
  encrypt _ nonce msg aad := some (nonce ++ aad ++ msg)
  decrypt _ nonce ct aad :=
    if ct.take (nonce ++ aad).length = nonce ++ aad then some (ct.drop (nonce ++ aad).length) else none
  error := "aead::Error"

theorem taggedAead_correct : taggedAead.Correct := by
  rintro key nonce msg aad ct h
  cases h
  dsimp only [taggedAead]
  rw [List.take_left, List.drop_left, if_pos rfl]

def taggedCrates : Crates :=
  ⟨fun _ => Vector.replicate 32 0, taggedAead, fun _ => none, fun _ => none, fun _ => none, fun _ => ""⟩

variable (x key epoch) in
theorem run_replicate_sealS (n : ℕ) (p : Bytes) (st : State) :
    ∃ st' more, Machine.run (step x key epoch) st (List.replicate n (.sealS p)) = some st' ∧
      st'.r = st.r ∧ st'.opened = st.opened ∧ st'.sent = st.sent ++ more ∧ more.length = n := by
  induction n generalizing st with
  | zero => exact ⟨st, [], rfl, rfl, rfl, (List.append_nil _).symm, rfl⟩
  | succ n ih =>
    obtain ⟨st', more, hrun, hr, hopened, hsent, hlen⟩ := ih { st with
      s := (st.s.seal x p).1
      log := st.log ++ encryption x st.s p
      sent := st.sent ++ [(p, (st.s.seal x p).2)] }
    refine ⟨st', (p, (st.s.seal x p).2) :: more, hrun, hr, hopened, ?_, ?_⟩
    · rw [hsent, List.append_assoc, List.singleton_append]
    · rw [List.length_cons, hlen]

theorem not_forged_of_seals {es : List Event} (hes : ∀ e ∈ es, ∃ p, e = .sealS p) (st : State) :
    ¬ Machine.Seen (step x key epoch) (Forged x) st es := by
  rintro ⟨es₁, e, es₂, t, rfl, -, hforged⟩
  obtain ⟨p, rfl⟩ := hes e (by simp)
  exact hforged

/-- The sender's packets 0 to `2^64 - 1`; the payload of packet 0 differs from the others. -/
def wrapSeals : List Event := [.sealS [0]] ++ List.replicate (2 ^ 64 - 1) (.sealS [1])

/-- The packet the cipher makes of `[1]` under number 0. -/
def wrapPacket : Bytes := beBytes 0 ++ (nonce SALT_INITIATOR 0 ++ beBytes 1 ++ [1])

/-- After `2^64` seals the number is 0 again: the receiver opens `(0, [1])`, and packet 0 held `[0]`. -/
theorem payload_of_another_number : taggedCrates.aead.Correct ∧ ∃ st,
    Machine.run (step taggedCrates (Vector.replicate 32 7) 1) (initial (Vector.replicate 32 7) 1 true)
      (wrapSeals ++ [.sealS [1]] ++ [.deliver wrapPacket]) = some st ∧
    ¬ Machine.Seen (step taggedCrates (Vector.replicate 32 7) 1) (Forged taggedCrates)
      (initial (Vector.replicate 32 7) 1 true) (wrapSeals ++ [.sealS [1]] ++ [.deliver wrapPacket]) ∧
    (0, [1]) ∈ st.opened ∧ ¬ ∃ packet, st.sent[(0 : BitVec 64).toNat]? = some ([1], .ok packet) := by
  refine ⟨taggedAead_correct, ?_⟩
  -- the first `2^64` seals
  obtain ⟨t, more, hrun, hr, hopened, hsent, hlen⟩ :=
    run_replicate_sealS taggedCrates (Vector.replicate 32 7) 1 (2 ^ 64 - 1) [1]
      { s := ((new (Vector.replicate 32 7) 1 true).seal taggedCrates [0]).1
        r := new (Vector.replicate 32 7) 1 false
        log := [] ++ encryption taggedCrates (new (Vector.replicate 32 7) 1 true) [0]
        sent := [] ++ [([0], ((new (Vector.replicate 32 7) 1 true).seal taggedCrates [0]).2)]
        opened := [] }
  have hseals : Machine.run (step taggedCrates (Vector.replicate 32 7) 1)
      (initial (Vector.replicate 32 7) 1 true) wrapSeals = some t :=
    (Machine.run_append_eq_some _).mpr ⟨_, rfl, hrun⟩
  obtain ⟨-, hsalt, haad, hseq⟩ := (run_inv hseals).sender
  have hzero : t.s.sendSeq = 0 := by
    rw [hseq, hsent, List.length_append, hlen]
    rfl
  -- the next one is encrypted under number 0 again
  have hentry : encryption taggedCrates t.s [1] =
      [⟨nonce SALT_INITIATOR 0, beBytes 1, [1], nonce SALT_INITIATOR 0 ++ beBytes 1 ++ [1]⟩] := by
    simp only [encryption, hsalt, haad, hzero]
    rfl
  have hlast : Machine.run (step taggedCrates (Vector.replicate 32 7) 1)
      (initial (Vector.replicate 32 7) 1 true) (wrapSeals ++ [.sealS [1]]) = some { t with
        s := (t.s.seal taggedCrates [1]).1
        log := t.log ++ encryption taggedCrates t.s [1]
        sent := t.sent ++ [([1], (t.s.seal taggedCrates [1]).2)] } :=
    (Machine.run_snoc_eq_some _).mpr ⟨t, hseals, rfl⟩
  have hopen : (t.r.open taggedCrates wrapPacket).2 = .ok (0, [1]) := by
    rw [hr]
    rfl
  refine ⟨_, (Machine.run_snoc_eq_some _).mpr ⟨_, hlast, rfl⟩, ?_, ?_, ?_⟩
  · rw [Machine.seen_snoc hlast, not_or]
    constructor
    · apply not_forged_of_seals
      intro e he
      simp only [wrapSeals, List.append_assoc, List.mem_append, List.mem_singleton, List.mem_replicate] at he
      rcases he with rfl | ⟨-, rfl⟩ | rfl <;> exact ⟨_, rfl⟩
    · rintro ⟨pt, hpt, hnot⟩
      rw [hr] at hpt hnot
      cases hpt
      apply hnot
      dsimp only
      rw [hentry]
      exact List.mem_append_right _ (List.mem_singleton_self _)
  · dsimp only
    rw [hopen]
    exact List.mem_append_right _ (List.mem_singleton_self _)
  · rintro ⟨packet, hpacket⟩
    dsimp only at hpacket
    rw [hsent] at hpacket
    simp at hpacket

end ScreenLink.Channel
