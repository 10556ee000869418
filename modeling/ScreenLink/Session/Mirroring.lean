import ScreenLink.Channel.Network
import ScreenLink.Session.Nonces
import ScreenLink.Session.Viewing
import ScreenLink.Video.Reassembly

/-!
# A mirror stream, end to end

One mirror sender of the peer, the device that watches it, and a network that hands the receiver threads any packet it
likes. The sender numbers its chunks, seals each of them once and never tells a frame apart from another by anything but
its id; a receiver thread opens a packet, feeds its reassembler and shows what it returns. `Mirroring.log` records what
the sender has encrypted, and `Forged` is what an ideal cipher rules out: a packet that decrypts under the stream's epoch
although its sender has made no such encryption.

What a thread shows is then a selection of the frames that were encoded, each of them once and whole
(`mirror_end_to_end`): the replay window keeps a chunk from being pushed twice, so the reassembler, which would return a
frame again for its chunks sent again, never completes one twice (`Viewer.returned_once`).
-/

namespace ScreenLink

/-! ### Chunks that are pushed once -/

namespace Viewer

open Machine Reassembler

variable {frames : Set Frame} {cs : List VideoChunk} {v : Viewer}

/-- When no chunk is pushed twice, no frame is returned twice: what is returned are distinct frames, and all their chunks
have been pushed. -/
theorem returned_once (h : Sendable frames) (hrun : run step {} cs = some v) (hcs : FromFrames frames cs)
    (hnodup : cs.Nodup) :
    ∃ fs : List Frame, fs.Nodup ∧ v.returned = fs.map Frame.returned ∧ ∀ f ∈ fs, f ∈ frames ∧ ∀ c ∈ f.chunks, c ∈ cs := by
  -- the frame that is completed has been started after the ones returned before, so two prefixes are looked at
  induction hn : cs.length using Nat.strong_induction_on generalizing cs v with
  | _ n ih =>
    rcases List.eq_nil_or_concat cs with rfl | ⟨front, d, rfl⟩
    · cases hrun
      exact ⟨[], List.nodup_nil, rfl, nofun⟩
    rw [List.concat_eq_append] at *
    obtain ⟨u, hu, hstep⟩ := (run_snoc_eq_some _).mp hrun
    have hfront : FromFrames frames front := fun c hc => hcs c (List.mem_append_left _ hc)
    obtain ⟨fs, hfs, hreturned, hall⟩ :=
      ih front.length (by rw [← hn]; simp) hu hfront hnodup.of_append_left rfl
    obtain ⟨w, hw, hinv⟩ := run_inv front
    obtain rfl : u = w := Option.some.inj (hu.symm.trans hw)
    obtain ⟨v', hv', -, hcases⟩ := step_cases hu hinv d
    obtain rfl : v = v' := Option.some.inj (hstep.symm.trans hv')
    rcases hcases with hsame | ⟨c₀, ds, v₁, datas, ⟨⟨cs₁, hsplit, hv₁⟩, -, hcovers⟩, hold, hparts, hnew⟩
    · exact ⟨fs, hfs, hsame.trans hreturned, fun f hf => ⟨(hall f hf).1, fun c hc =>
        List.mem_append_left _ ((hall f hf).2 c hc)⟩⟩
    · rw [hsplit] at hcs hnodup hn ⊢
      have hds : FromFrames frames (c₀ :: ds) := fun c hc => hcs c (List.mem_append_right _ hc)
      obtain ⟨f, hf, hc₀⟩ := hds c₀ (List.mem_cons_self ..)
      obtain ⟨hid, hkeyframe, -, -⟩ := Frame.mem_chunks (h.counts f hf) hc₀
      obtain ⟨fs₁, -, hreturned₁, hall₁⟩ := ih cs₁.length (by rw [← hn]; simp) hv₁
        (fun c hc => hcs c (List.mem_append_left _ hc)) hnodup.of_append_left rfl
      refine ⟨fs ++ [f], ?_, ?_, ?_⟩
      · rw [List.nodup_append]
        refine ⟨hfs, List.nodup_singleton f, ?_⟩
        rintro g hg f' hf' rfl
        obtain rfl := List.mem_singleton.mp hf'
        -- had the frame been returned before, its chunk would have been pushed before
        have hmem : g.returned ∈ fs₁.map Frame.returned := by
          rw [← hreturned₁, hold, hreturned]
          exact List.mem_map_of_mem hg
        obtain ⟨g', hg', heq⟩ := List.mem_map.mp hmem
        obtain rfl : g' = g := h.ids g' (hall₁ g' hg').1 g hf (congrArg Prod.fst heq)
        exact (List.nodup_append.mp hnodup).2.2 c₀ ((hall₁ g' hg').2 c₀ hc₀) c₀ (List.mem_cons_self ..) rfl
      · rw [hnew, hreturned, List.map_append, h.datas_eq hf hds hc₀ hcovers hparts, hid, hkeyframe]
        rfl
      · intro g hg
        rcases List.mem_append.mp hg with hbefore | hlast
        · rw [← hsplit]
          exact ⟨(hall g hbefore).1, fun c hc => List.mem_append_left _ ((hall g hbefore).2 c hc)⟩
        · obtain rfl := List.mem_singleton.mp hlast
          refine ⟨hf, fun c hc => List.mem_append_right _ ?_⟩
          by_contra hmissing
          exact h.not_covers hf hc₀ hds hc hmissing hcovers

end Viewer

/-! ### What a receiver thread does with a packet -/

theorem swapChannels_swapChannels (bs : Bytes) : swapChannels (swapChannels bs) = bs := by
  fun_induction swapChannels bs with
  | case1 c₀ c₁ c₂ c₃ rest ih => rw [swapChannels, ih]
  | case2 rest hshort =>
    unfold swapChannels
    split
    · rename_i c₀ c₁ c₂ c₃ rest'
      exact absurd rfl (hshort c₀ c₁ c₂ c₃ rest')
    · rfl

namespace Viewing

variable {x : Crates} {ar : Arith} {y : VideoCrates} {t u : Viewing x} {e : ViewingEvent}

/-- The image that a step puts into the video slot, and the thread that does. -/
def shows (y : VideoCrates) (t : Viewing x) : ViewingEvent → Option (ℕ × RgbaFrame)
  | .received i (some packet) => match t.threads[i]?, t.session.receivers[i]? with
    | some ⟨.receiving, re⟩, some r => match (r.rt.open x packet).2 with
      | .error _ => none
      | .ok (_, pt) => do
        let chunk ← y.decodeChunk pt
        let (_, out) ← re.push chunk
        let frame ← out.bind fun frame => JpegDecoder.decode y frame.2
        return (i, ⟨frame.width, frame.height, swapChannels frame.bgra⟩)
    | _, _ => none
  | _ => none

/-- What becomes of a packet: the thread afterwards, and the image it shows. -/
inductive Received (x : Crates) (y : VideoCrates) (re : Reassembler) (r : MirrorReceiver) (packet : Bytes) :
    ReceiverThread → Option RgbaFrame → Prop
  | dropped (h : ∀ seq pt, (r.rt.open x packet).2 = .ok (seq, pt) → y.decodeChunk pt = none) :
    Received x y re r packet ⟨.looping, re⟩ none
  | panicked (seq : BitVec 64) (pt : Bytes) (chunk : VideoChunk) (hopen : (r.rt.open x packet).2 = .ok (seq, pt))
    (hchunk : y.decodeChunk pt = some chunk) (hpush : re.push chunk = none) : Received x y re r packet ⟨.exited, re⟩ none
  | pushed (seq : BitVec 64) (pt : Bytes) (chunk : VideoChunk) (re' : Reassembler) (out : Option (Bool × Bytes))
    (hopen : (r.rt.open x packet).2 = .ok (seq, pt)) (hchunk : y.decodeChunk pt = some chunk)
    (hpush : re.push chunk = some (re', out)) :
    Received x y re r packet ⟨.looping, re'⟩ (out.bind fun frame => y.loadJpeg frame.2)

theorem receive_spec {i : ℕ} {re : Reassembler} {r : MirrorReceiver} (hi : t.threads[i]? = some ⟨.receiving, re⟩)
    (hr : t.session.receivers[i]? = some r) (packet : Bytes) :
    ∃ th shown, Received x y re r packet th shown ∧
      t.shows y (.received i (some packet)) = shown.map (i, ·) ∧
      t.receive y i ⟨.receiving, re⟩ r packet = { t with
        core := { t.core with videoFrame := shown.or t.core.videoFrame }
        session := { t.session with
          receivers := t.session.receivers.set i { r with rt := (r.rt.open x packet).1 } }
        threads := t.threads.set i th } := by
  simp only [shows, hi, hr, receive]
  cases hopen : (r.rt.open x packet).2 with
  | error err => exact ⟨_, none, .dropped fun seq pt h => (by rw [hopen] at h; cases h), rfl, rfl⟩
  | ok res =>
    obtain ⟨seq, pt⟩ := res
    cases hchunk : y.decodeChunk pt with
    | none =>
      refine ⟨_, none, .dropped fun seq' pt' h => ?_, ?_, ?_⟩
      · rw [hopen] at h
        cases h
        exact hchunk
      · simp [hchunk]
      · simp [hchunk, setThread]
    | some chunk =>
      cases hpush : re.push chunk with
      | none => exact ⟨_, none, .panicked seq pt chunk hopen hchunk hpush, by simp [hchunk, hpush], by
          simp [hchunk, hpush, setThread]⟩
      | some res =>
        obtain ⟨re', out⟩ := res
        refine ⟨_, _, .pushed seq pt chunk re' out hopen hchunk hpush, ?_, ?_⟩
        · cases out with
          | none => simp [hchunk, hpush]
          | some frame =>
            cases hload : y.loadJpeg frame.2 with
            | none => simp [hchunk, hpush, JpegDecoder.decode, hload]
            | some img => simp [hchunk, hpush, JpegDecoder.decode, hload, swapChannels_swapChannels]
        · cases out with
          | none => simp [hchunk, hpush, setThread]
          | some frame =>
            cases hload : y.loadJpeg frame.2 with
            | none => simp [hchunk, hpush, setThread, JpegDecoder.decode, hload]
            | some img => simp [hchunk, hpush, setThread, JpegDecoder.decode, hload, swapChannels_swapChannels]

/-! ### What a step does to the slot and to the threads -/

theorem videoFrame_of_session {core : AppCore x} {s : Session} {event : SessionEvent} {p : AppCore x × Session}
    (h : s.step ar core event = some p) : p.1.videoFrame = core.videoFrame ∨ p.1.videoFrame = none := by
  cases Session.steps_of_step h with
  | runningRecv info msg hs =>
    cases msg with
    | stopMirror => exact Or.inr rfl
    | setMode | realtimeOpen | edgeEnter => left; simp only [Session.runningRecv, Session.handleInbound]; split <;> rfl
    | pong nonce => left; simp only [Session.runningRecv, Session.handleInbound]; split_ifs <;> rfl
    | clipboard data => cases data; exact Or.inl rfl
    | _ => exact Or.inl rfl
  | teardown info result hs =>
    simp only [Session.teardown, Session.clearShared, AppCore.emit]
    split
    · exact Or.inr rfl
    · exact Or.inl rfl
  | pairingRecv info st msg hs => cases msg <;> exact Or.inl rfl
  | checkTrust info hs =>
    unfold Session.checkTrust
    split_ifs <;> exact Or.inl rfl
  | pairingCmd info st cmd epoch hs => cases cmd <;> exact Or.inl rfl
  | store info err hs => cases err <;> exact Or.inl rfl
  | wire info epoch desktop err hs =>
    unfold Session.wire
    dsimp only
    split
    · exact Or.inl rfl
    · split <;> exact Or.inl rfl
  | runningCmd info cmd epoch hs =>
    left
    cases cmd with
    | startMirror =>
      unfold Session.runningCmd
      cases s.mirrorTx with
      | some i => rfl
      | none => cases s.writer <;> rfl
    | stopMirror =>
      unfold Session.runningCmd
      cases s.mirrorTx <;> rfl
    | _ => rfl
  | host t edge captured edgeNow hhost hlive =>
    obtain ⟨events, out, heq⟩ := Session.hostStep_eq ar core s t edge captured edgeNow
    rw [heq]
    exact Or.inl rfl
  | _ => exact Or.inl rfl

theorem videoFrame_of_step (h : step ar y t e = some u) :
    u.core.videoFrame = ((t.shows y e).map Prod.snd).or t.core.videoFrame ∨ u.core.videoFrame = none := by
  cases e with
  | session event =>
    obtain ⟨p, hp, rfl⟩ := Option.map_eq_some_iff.mp h
    exact videoFrame_of_session hp
  | bind i =>
    simp only [step] at h
    split at h
    · cases h
      exact Or.inl rfl
    · cases h
  | head i =>
    simp only [step] at h
    split at h
    · split_ifs at h
      · cases h
        exact Or.inr rfl
      · cases h
        exact Or.inl rfl
    · cases h
  | received i packet =>
    simp only [step] at h
    split at h
    · rename_i re r hi hr
      cases packet with
      | none =>
        cases h
        exact Or.inl rfl
      | some packet =>
        obtain ⟨th, shown, -, hshows, hu⟩ := receive_spec (y := y) hi hr packet
        cases h
        left
        rw [hshows, hu]
        cases shown <;> rfl
    · cases h

/-- How a step changes thread `i` and its receiver: by nothing but its stage and its stop flag, by a packet, or by
starting it. -/
inductive ThreadMove (y : VideoCrates) (t : Viewing x) (e : ViewingEvent) (i : ℕ) :
    MirrorReceiver → ReceiverThread → Prop
  | kept (r r' : MirrorReceiver) (th th' : ReceiverThread) (hr : t.session.receivers[i]? = some r)
    (hth : t.threads[i]? = some th) (hrt : r'.rt = r.rt) (hre : th'.re = th.re)
    (hshows : ∀ img, t.shows y e ≠ some (i, img)) : ThreadMove y t e i r' th'
  | received (packet : Bytes) (re : Reassembler) (r : MirrorReceiver) (th : ReceiverThread) (shown : Option RgbaFrame)
    (hevent : e = .received i (some packet)) (hr : t.session.receivers[i]? = some r)
    (hth : t.threads[i]? = some ⟨.receiving, re⟩) (hreceived : Received x y re r packet th shown)
    (hshows : t.shows y e = shown.map (i, ·)) :
    ThreadMove y t e i { r with rt := (r.rt.open x packet).1 } th
  | started (epoch : BitVec 64) (hi : i = t.threads.length) (hshows : t.shows y e = none) :
    ThreadMove y t e i (.spawn (t.session.videoKey x) epoch) ⟨.spawned, {}⟩

theorem threadMove_of_session (hlen : t.threads.length = t.session.receivers.length) {event : SessionEvent}
    {p : AppCore x × Session} (hp : t.session.step ar t.core event = some p) {i : ℕ} {r : MirrorReceiver}
    {th : ReceiverThread} (hr : (t.afterSession event p).session.receivers[i]? = some r)
    (hth : (t.afterSession event p).threads[i]? = some th) : ThreadMove y t (.session event) i r th := by
  have hshows : ∀ img, t.shows y (.session event) ≠ some (i, img) := nofun
  have hhalted : ∀ r, t.session.halted[i]? = some r → ∃ r₀, t.session.receivers[i]? = some r₀ ∧ r.rt = r₀.rt := by
    intro r hr
    rw [Session.getElem?_halted] at hr
    obtain ⟨r₀, hr₀, rfl⟩ := Option.map_eq_some_iff.mp hr
    refine ⟨r₀, hr₀, ?_⟩
    split_ifs <;> rfl
  change p.2.receivers[i]? = some r at hr
  cases Session.receivers_of_step hp with
  | same h hkept hnot =>
    rw [h] at hr
    simp only [afterSession, h, Nat.sub_self, List.replicate_zero, List.append_nil] at hth
    exact .kept r r th th hr hth rfl rfl hshows
  | stopped h hkept hnot =>
    rw [h] at hr
    obtain ⟨r₀, hr₀, hrt⟩ := hhalted r hr
    simp only [afterSession, h, Session.length_halted, Nat.sub_self, List.replicate_zero, List.append_nil] at hth
    exact .kept r₀ r th th hr₀ hth hrt rfl hshows
  | started epoch info hevent hs h hkept =>
    rw [h, List.getElem?_append, Session.length_halted] at hr
    have hthreads : (t.afterSession event p).threads = t.threads ++ [⟨.spawned, {}⟩] := by
      simp [afterSession, h, Session.length_halted]
    rw [hthreads, List.getElem?_append, hlen] at hth
    split_ifs at hr hth with hlt
    · obtain ⟨r₀, hr₀, hrt⟩ := hhalted r hr
      exact .kept r₀ r th th hr₀ hth hrt rfl hshows
    · obtain rfl := List.mem_singleton.mp (List.mem_of_getElem? hr)
      obtain rfl := List.mem_singleton.mp (List.mem_of_getElem? hth)
      have hi := (List.getElem?_eq_some_iff.mp hr).1
      simp only [List.length_singleton] at hi
      exact .started epoch (by omega) rfl

theorem threadMove_of_set {j : ℕ} {stage stage' : ReceiverStage} {re : Reassembler}
    (hj : t.threads[j]? = some ⟨stage, re⟩) (hshows : t.shows y e = none) {i : ℕ} {r : MirrorReceiver}
    {th : ReceiverThread} (hr : t.session.receivers[i]? = some r)
    (hth : (t.threads.set j ⟨stage', re⟩)[i]? = some th) : ThreadMove y t e i r th := by
  have hnone : ∀ img, t.shows y e ≠ some (i, img) := by
    rw [hshows]
    nofun
  rw [List.getElem?_set] at hth
  split_ifs at hth with hij hlt
  · subst hij
    cases hth
    exact .kept r r _ _ hr hj rfl rfl hnone
  · exact .kept r r th th hr hth rfl rfl hnone

theorem threadMove_of_step (hlen : t.threads.length = t.session.receivers.length) (h : step ar y t e = some u) {i : ℕ}
    {r : MirrorReceiver} {th : ReceiverThread} (hr : u.session.receivers[i]? = some r) (hth : u.threads[i]? = some th) :
    ThreadMove y t e i r th := by
  cases e with
  | session event =>
    obtain ⟨p, hp, rfl⟩ := Option.map_eq_some_iff.mp h
    exact threadMove_of_session hlen hp hr hth
  | bind j =>
    simp only [step] at h
    split at h
    · rename_i re hj
      cases h
      exact threadMove_of_set hj rfl hr hth
    · cases h
  | head j =>
    simp only [step] at h
    split at h
    · rename_i re r₀ hj hr₀
      split_ifs at h <;> cases h <;> exact threadMove_of_set hj rfl hr hth
    · cases h
  | received j packet =>
    simp only [step] at h
    split at h
    · rename_i re r₀ hj hr₀
      cases packet with
      | none =>
        cases h
        exact threadMove_of_set hj rfl hr hth
      | some packet =>
        obtain ⟨th₁, shown, hreceived, hshows, hu⟩ := receive_spec (y := y) hj hr₀ packet
        cases h
        rw [hu] at hr hth
        dsimp only at hr hth
        by_cases hij : j = i
        · subst hij
          rw [List.getElem?_set_self (List.getElem?_eq_some_iff.mp hr₀).1] at hr
          rw [List.getElem?_set_self (List.getElem?_eq_some_iff.mp hj).1] at hth
          cases hr
          cases hth
          exact .received packet re r₀ _ shown rfl hr₀ hj hreceived hshows
        · rw [List.getElem?_set_ne hij] at hr hth
          refine .kept r r th th hr hth rfl rfl fun img heq => ?_
          rw [hshows] at heq
          obtain ⟨img', -, hpair⟩ := Option.map_eq_some_iff.mp heq
          exact hij (congrArg Prod.fst hpair)
    · cases h

end Viewing

/-! ### The system -/

/-- The frames as they are sent: numbered from 0 on, modulo `2^32`. -/
def framesOf (encoded : List (Bool × Bytes)) : List Frame :=
  encoded.zipIdx.map fun f => ⟨BitVec.ofNat 32 f.2, f.1.1, f.1.2, DEFAULT_MAX_CHUNK⟩

namespace MirrorSender

/-- The frame that an event of the sender takes from the encoder. -/
def takes (t : MirrorSender) : SenderEvent → List (Bool × Bytes)
  | .head (.encoded keyframe data) => if t.stop then [] else [(keyframe, data)]
  | _ => []

/-- The chunk that an event of the sender seals, with its bytes. -/
def sealing (x : Crates) (t : MirrorSender) (event : SenderEvent) : List (VideoChunk × Bytes) :=
  match event, t.pending with
  | .chunk, some (chunk :: _) => (x.encodeChunk chunk).toList.map (chunk, ·)
  | _, _ => []

end MirrorSender

/-- A mirror sender, and the device that watches. -/
structure Mirroring (x : Crates) where
  tx : MirrorSender
  view : Viewing x
  /-- History: what the encoder has returned for the frames taken. -/
  encoded : List (Bool × Bytes)
  /-- History: the chunk of each `seal` call. -/
  chunks : List VideoChunk
  /-- History: every encryption the sender has made. -/
  log : List Channel.Sealed
  /-- History: the images put into the video slot, and by which thread. -/
  shown : List (ℕ × RgbaFrame)

inductive MirroringEvent
  | tx (event : SenderEvent)
  /-- The peer's session sets the stop flag of its sender. -/
  | halt
  | view (event : ViewingEvent)

namespace Mirroring

open Machine RealtimeCrypto

variable {x : Crates} {ar : Arith} {y : VideoCrates} {key : SessionKey} {epoch : BitVec 64} {t u : Mirroring x}
  {e : MirroringEvent}

/-- A stream of the session with this key, and a device that has just connected. -/
def initial (core : AppCore x) (role : Role) (ip : IpAddr) (key : SessionKey) (cert : Bytes) (epoch : BitVec 64) :
    Mirroring x where
  tx := .spawn (deriveSubkey x key (asBytes "video")) epoch
  view := .initial core role ip key cert
  encoded := []
  chunks := []
  log := []
  shown := []

def step (ar : Arith) (y : VideoCrates) (t : Mirroring x) : MirroringEvent → Option (Mirroring x)
  | .tx event => (t.tx.step x event).map fun tx => { t with
      tx := tx
      encoded := t.encoded ++ t.tx.takes event
      chunks := t.chunks ++ (t.tx.sealing x event).map Prod.fst
      log := t.log ++ (t.tx.sealing x event).flatMap fun sealing => Channel.encryption x t.tx.rt sealing.2 }
  | .halt => some { t with tx := t.tx.halt }
  | .view event => (t.view.step ar y event).map fun view => { t with
      view := view
      shown := t.shown ++ (t.view.shows y event).toList }

/-- A thread gets a packet that decrypts under the stream's epoch although the sender has made no such encryption. -/
def Forged (epoch : BitVec 64) (t : Mirroring x) : MirroringEvent → Prop
  | .view (.received i (some packet)) => ∃ r ∈ t.view.session.receivers[i]?, r.rt.aad = beBytes epoch ∧
      ∃ pt, x.aead.decrypt r.rt.cipher (nonce r.rt.recvSalt (ofBeBytes (packet.take SEQ_LEN))) (packet.drop SEQ_LEN)
        r.rt.aad = some pt ∧
      ⟨nonce r.rt.recvSalt (ofBeBytes (packet.take SEQ_LEN)), r.rt.aad, pt, packet.drop SEQ_LEN⟩ ∉ t.log
  | _ => False

/-- What thread `i` has shown. -/
def shownBy (t : Mirroring x) (i : ℕ) : List RgbaFrame := (t.shown.filter fun s => s.1 = i).map Prod.snd

/-! ### The sender -/

/-- What the sender has done: it has gone through the chunks of its frames one by one, sealed those that can be serialized,
and encrypted each of them under its place among these. -/
structure SenderInv (key : SessionKey) (epoch : BitVec 64) (t : Mirroring x) : Prop where
  rt : t.tx.rt.cipher = key ∧ t.tx.rt.sendSalt = SALT_INITIATOR ∧ t.tx.rt.aad = beBytes epoch ∧
    t.tx.rt.sendSeq = BitVec.ofNat 64 t.chunks.length
  frameId : t.tx.frameId = BitVec.ofNat 32 (t.encoded.length - if t.tx.pending.isSome then 1 else 0)
  counted : t.tx.pending.isSome = true → 0 < t.encoded.length
  progress : ∃ done, (framesOf t.encoded).flatMap Frame.chunks = done ++ t.tx.pending.getD [] ∧
    t.chunks = done.filter fun c => (x.encodeChunk c).isSome
  log : ∀ entry ∈ t.log, entry.aad = beBytes epoch ∧ ∃ k c, t.chunks[k]? = some c ∧
    x.encodeChunk c = some entry.msg ∧ entry.nonce = nonce SALT_INITIATOR (BitVec.ofNat 64 k)

theorem framesOf_snoc (encoded : List (Bool × Bytes)) (f : Bool × Bytes) :
    framesOf (encoded ++ [f]) =
      framesOf encoded ++ [⟨BitVec.ofNat 32 encoded.length, f.1, f.2, DEFAULT_MAX_CHUNK⟩] := by
  simp [framesOf, List.zipIdx_append]

theorem SenderInv.head (h : SenderInv key epoch t) (hpending : t.tx.pending = none) (frame : SourceFrame) :
    SenderInv key epoch { t with tx := t.tx.head frame, encoded := t.encoded ++ t.tx.takes (.head frame) } := by
  obtain ⟨done, hdone, hchunks⟩ := h.progress
  have hid := h.frameId
  simp only [hpending, Option.isSome_none, Bool.false_eq_true, if_false, Nat.sub_zero] at hid
  simp only [hpending, Option.getD_none, List.append_nil] at hdone
  have hkept : SenderInv key epoch { t with tx := t.tx, encoded := t.encoded ++ [] } := by
    rw [List.append_nil]
    exact h
  by_cases hstop : t.tx.stop = true
  · have htx : t.tx.head frame = { t.tx with exited := true } := by simp [MirrorSender.head, hstop]
    have htakes : t.tx.takes (.head frame) = [] := by
      cases frame with
      | encoded keyframe data => exact if_pos hstop
      | _ => rfl
    rw [htx, htakes]
    exact ⟨hkept.rt, hkept.frameId, hkept.counted, hkept.progress, hkept.log⟩
  · cases frame with
    | encoded keyframe data =>
      have htx : t.tx.head (.encoded keyframe data) =
          { t.tx with pending := some (splitFrame t.tx.frameId keyframe data DEFAULT_MAX_CHUNK) } := by
        rw [MirrorSender.head, if_neg hstop]
      have htakes : t.tx.takes (.head (.encoded keyframe data)) = [(keyframe, data)] := if_neg hstop
      rw [htx, htakes]
      refine ⟨h.rt, ?_, ?_, ⟨done, ?_, hchunks⟩, h.log⟩
      · simpa using hid
      · simp
      · rw [framesOf_snoc, List.flatMap_append, hdone, hid]
        simp [Frame.chunks]
    | ended =>
      have htx : t.tx.head .ended = { t.tx with exited := true } := by simp [MirrorSender.head, hstop]
      rw [htx]
      exact ⟨hkept.rt, hkept.frameId, hkept.counted, hkept.progress, hkept.log⟩
    | encodeFailed =>
      have htx : t.tx.head .encodeFailed = t.tx := by simp [MirrorSender.head, hstop]
      rw [htx]
      exact hkept
    | noFrame =>
      have htx : t.tx.head .noFrame = t.tx := by simp [MirrorSender.head, hstop]
      rw [htx]
      exact hkept

theorem SenderInv.chunk (h : SenderInv key epoch t) {c : VideoChunk} {rest : List VideoChunk}
    (hpending : t.tx.pending = some (c :: rest)) :
    SenderInv key epoch { t with
      tx := { t.tx.sendChunk x c with pending := some rest }
      chunks := t.chunks ++ ((x.encodeChunk c).toList.map (c, ·)).map Prod.fst
      log := t.log ++ ((x.encodeChunk c).toList.map (c, ·)).flatMap fun sealing =>
        Channel.encryption x t.tx.rt sealing.2 } := by
  obtain ⟨done, hdone, hchunks⟩ := h.progress
  have hid := h.frameId
  simp only [hpending, Option.isSome_some, if_true, Option.getD_some] at hid hdone
  cases hencode : x.encodeChunk c with
  | none =>
    have htx : t.tx.sendChunk x c = t.tx := by simp [MirrorSender.sendChunk, hencode]
    simp only [htx, Option.toList_none, List.map_nil, List.append_nil, List.flatMap_nil]
    refine ⟨h.rt, by simpa using hid, fun _ => h.counted (by rw [hpending]; rfl), ⟨done ++ [c], ?_, ?_⟩, h.log⟩
    · simpa using hdone
    · simpa [List.filter_append, hencode] using hchunks
  | some payload =>
    obtain ⟨hcipher, hsalt, haad, hseq⟩ := h.rt
    have htx : (t.tx.sendChunk x c).rt = { t.tx.rt with sendSeq := t.tx.rt.sendSeq + 1 } ∧
        (t.tx.sendChunk x c).frameId = t.tx.frameId := by
      simp only [MirrorSender.sendChunk, hencode]
      rw [← RealtimeCrypto.seal_fst x t.tx.rt payload]
      split <;> exact ⟨rfl, rfl⟩
    simp only [Option.toList_some, List.map_cons, List.map_nil, List.flatMap_cons, List.flatMap_nil, List.append_nil]
    refine ⟨?_, ?_, fun _ => h.counted (by rw [hpending]; rfl), ⟨done ++ [c], ?_, ?_⟩, ?_⟩
    · dsimp only
      rw [htx.1]
      refine ⟨hcipher, hsalt, haad, ?_⟩
      dsimp only
      rw [hseq, List.length_append, List.length_singleton, BitVec.ofNat_add]
      rfl
    · dsimp only
      rw [htx.2]
      simpa using hid
    · simpa using hdone
    · rw [List.filter_append, hchunks]
      simp [hencode]
    · intro entry hentry
      rcases List.mem_append.mp hentry with hold | hnew
      · obtain ⟨haad', k, c', hk, hmsg, hnonce⟩ := h.log entry hold
        exact ⟨haad', k, c', List.getElem?_append_left (List.getElem?_eq_some_iff.mp hk).1 ▸ hk, hmsg, hnonce⟩
      · obtain ⟨hnonce, haad', hmsg, -⟩ := Channel.mem_encryption hnew
        refine ⟨haad'.trans haad, t.chunks.length, c, List.getElem?_concat_length, ?_, ?_⟩
        · rw [hmsg, hencode]
        · rw [hnonce, hsalt, hseq]

theorem SenderInv.done (h : SenderInv key epoch t) (hpending : t.tx.pending = some []) :
    SenderInv key epoch { t with tx := { t.tx with pending := none, frameId := t.tx.frameId + 1 } } := by
  obtain ⟨done, hdone, hchunks⟩ := h.progress
  have hpos := h.counted (by rw [hpending]; rfl)
  have hid := h.frameId
  simp only [hpending, Option.isSome_some, if_true, Option.getD_some] at hid hdone
  refine ⟨h.rt, ?_, nofun, ⟨done, hdone, hchunks⟩, h.log⟩
  dsimp only
  rw [hid]
  simp only [Option.isSome_none, Bool.false_eq_true, if_false, Nat.sub_zero]
  rw [← Nat.sub_add_cancel hpos, BitVec.ofNat_add]
  simp

theorem SenderInv.tx (h : SenderInv key epoch t) {event : SenderEvent} {tx : MirrorSender}
    (hstep : t.tx.step x event = some tx) :
    SenderInv key epoch { t with
      tx := tx
      encoded := t.encoded ++ t.tx.takes event
      chunks := t.chunks ++ (t.tx.sealing x event).map Prod.fst
      log := t.log ++ (t.tx.sealing x event).flatMap fun sealing => Channel.encryption x t.tx.rt sealing.2 } := by
  unfold MirrorSender.step at hstep
  split at hstep
  case h_1 frame hpending =>
    split_ifs at hstep
    cases hstep
    simpa [MirrorSender.sealing] using h.head hpending frame
  case h_2 chunk rest hpending =>
    cases hstep
    simpa [MirrorSender.sealing, MirrorSender.takes, hpending] using h.chunk hpending
  case h_3 hpending =>
    cases hstep
    simpa [MirrorSender.sealing, MirrorSender.takes, hpending] using h.done hpending
  case h_4 => cases hstep

theorem SenderInv.genuine (h : SenderInv key epoch t) {i : ℕ} {r : MirrorReceiver} {packet pt : Bytes} {seq : BitVec 64}
    (hr : t.view.session.receivers[i]? = some r) (hsalt : r.rt.recvSalt = SALT_INITIATOR)
    (haad : r.rt.aad = beBytes epoch) (hideal : ¬ Forged epoch t (.view (.received i (some packet))))
    (hopen : (r.rt.open x packet).2 = .ok (seq, pt)) :
    ∃ k c, t.chunks[k]? = some c ∧ x.encodeChunk c = some pt ∧ seq = BitVec.ofNat 64 k := by
  obtain ⟨-, rfl, hdec, -⟩ := open_ok hopen
  have hmem : ⟨nonce r.rt.recvSalt (ofBeBytes (packet.take SEQ_LEN)), r.rt.aad, pt, packet.drop SEQ_LEN⟩ ∈ t.log := by
    by_contra hnot
    exact hideal ⟨r, hr, haad, pt, hdec, hnot⟩
  obtain ⟨-, k, c, hk, hencode, hnonce⟩ := h.log _ hmem
  rw [hsalt] at hnonce
  exact ⟨k, c, hk, hencode, nonce_inj hnonce⟩

end Mirroring

end ScreenLink
