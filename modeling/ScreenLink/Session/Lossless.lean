import ScreenLink.Channel.InOrder
import ScreenLink.Session.EndToEnd

/-!
# Nothing is lost: everything is shown

A network delivers the packets of a mirror stream in order and loses none, among others that it adds (`Channel.Mixed`). A
thread that has just started then shows every frame the sender has encoded, in order (`lossless_shows_all`): what is added
leaves the thread as it was, and the sender's packets are opened one after the other, so the chunks of each frame are pushed
before those of the next.
-/

namespace ScreenLink

/-! ### The chunks of frame after frame -/

namespace Viewer

open Machine Reassembler

variable {v : Viewer}

theorem run_chunks (h : v.re.frameId = none) {f : Frame} (hlen : f.chunks.length ≤ 65535) :
    ∃ w, run step v f.chunks = some w ∧ w.re.frameId = none ∧ w.returned = v.returned ++ [f.returned] := by
  have hsend := Frame.sendable_singleton hlen
  have hfrom : ∀ cs : List VideoChunk, (∀ c ∈ cs, c ∈ f.chunks) → FromFrames {f} cs :=
    fun cs hcs c hc => ⟨f, rfl, hcs c hc⟩
  rcases List.eq_nil_or_concat f.chunks with hnil | ⟨front, d, hlast⟩
  · have hlength := congrArg List.length hnil
    rw [Frame.chunks, length_splitFrame] at hlength
    exact absurd (List.length_eq_zero_iff.mp hlength) (slices_ne_nil _ _)
  rw [List.concat_eq_append] at hlast
  obtain ⟨c₀, ds, hfirst⟩ : ∃ c₀ ds, f.chunks = c₀ :: ds := List.exists_cons_of_ne_nil (by rw [hlast]; simp)
  have hc₀ : c₀ ∈ f.chunks := by simp [hfirst]
  obtain ⟨hid, hkeyframe, -, -⟩ := Frame.mem_chunks hlen hc₀
  have hcollects : Collects v c₀ ds := by
    refine ⟨by simp [starts, h], fun d hd => ?_⟩
    have hd' : d ∈ f.chunks := by simp [hfirst, hd]
    rw [(Frame.mem_chunks hlen hd').1, hid]
    exact isNewer_self f.id
  have hopen : ¬ Covers c₀ front := by
    refine hsend.not_covers rfl hc₀ (hfrom front fun c hc => ?_) (c := d) ?_ (Frame.notMem_front hlen hlast)
    · simp [hlast, hc]
    · simp [hlast]
  have hcovers : Covers c₀ (c₀ :: ds) := hsend.covers rfl hc₀ fun c hc => hfirst ▸ hc
  obtain ⟨u, datas, hu, -, hparts, hstep⟩ := hcollects.run_close front (hfirst.symm.trans hlast) hopen hcovers
  refine ⟨_, hlast ▸ (run_snoc_eq_some _).mpr ⟨u, hu, hstep⟩, rfl, ?_⟩
  rw [hsend.datas_eq rfl (hfrom _ fun c hc => hfirst ▸ hc) hc₀ hcovers hparts, hid, hkeyframe]
  rfl

theorem run_frames {fs : List Frame} (hlen : ∀ f ∈ fs, f.chunks.length ≤ 65535) (h : v.re.frameId = none) :
    ∃ w, run step v (fs.flatMap Frame.chunks) = some w ∧ w.returned = v.returned ++ fs.map Frame.returned := by
  induction fs generalizing v with
  | nil => exact ⟨v, rfl, (List.append_nil _).symm⟩
  | cons f fs ih =>
    obtain ⟨u, hu, hnone, hreturned⟩ := run_chunks h (hlen f (List.mem_cons_self ..))
    obtain ⟨w, hw, hall⟩ := ih (fun g hg => hlen g (List.mem_cons_of_mem f hg)) hnone
    refine ⟨w, (run_append_eq_some _).mpr ⟨u, hu, hw⟩, ?_⟩
    rw [hall, hreturned, List.append_assoc]
    rfl

end Viewer

theorem Numbered.length_chunks_lt {encoded : List (Bool × Bytes)} (h : Numbered encoded) :
    ((framesOf encoded).flatMap Frame.chunks).length < 2 ^ 64 := by
  have hsum : ∀ fs : List Frame, (∀ f ∈ fs, f.chunks.length ≤ 65535) →
      (fs.flatMap Frame.chunks).length ≤ fs.length * 65535 := by
    intro fs hfs
    induction fs with
    | nil => exact le_rfl
    | cons f fs ih =>
      have hf := hfs f (List.mem_cons_self ..)
      have hrest := ih fun g hg => hfs g (List.mem_cons_of_mem f hg)
      rw [List.flatMap_cons, List.length_append, List.length_cons]
      omega
  have hle := hsum (framesOf encoded) fun f hf => h.sendable.counts f hf
  have hlen : (framesOf encoded).length = encoded.length := by simp [framesOf]
  have hfew := h.few
  omega

namespace Mirroring

open Machine RealtimeCrypto Channel

variable {x : Crates} {ar : Arith} {y : VideoCrates} {key : SessionKey} {epoch : BitVec 64} {t u : Mirroring x}
  {e : MirroringEvent}

/-! ### What the sender has sent -/

/-- The packet of chunk number `k`, if it can be serialized and encrypted. -/
def packetOf (x : Crates) (key : SessionKey) (epoch : BitVec 64) (c : VideoChunk × ℕ) : Option Bytes := do
  let bytes ← x.encodeChunk c.1
  let ct ← x.aead.encrypt key (nonce SALT_INITIATOR (BitVec.ofNat 64 c.2)) bytes (beBytes epoch)
  return beBytes (BitVec.ofNat 64 c.2) ++ ct

/-- The sender's packets, next to what its chunks are. -/
structure SentInv (key : SessionKey) (epoch : BitVec 64) (t : Mirroring x) : Prop where
  sender : SenderInv key epoch t
  out : t.tx.out = t.chunks.zipIdx.filterMap (packetOf x key epoch)

theorem SentInv.tx (h : SentInv key epoch t) {event : SenderEvent} (hstep : t.step ar y (.tx event) = some u) :
    SentInv key epoch u := by
  obtain ⟨tx, htx, rfl⟩ := Option.map_eq_some_iff.mp hstep
  refine ⟨h.sender.tx htx, ?_⟩
  obtain ⟨hcipher, hsalt, haad, hseq⟩ := h.sender.rt
  unfold MirrorSender.step at htx
  split at htx
  case h_1 frame hpending =>
    split_ifs at htx
    cases htx
    have hout : (t.tx.head frame).out = t.tx.out := by
      unfold MirrorSender.head
      split_ifs
      · rfl
      · cases frame <;> rfl
    simpa [MirrorSender.sealing, hout] using h.out
  case h_2 chunk rest hpending =>
    cases htx
    cases hencode : x.encodeChunk chunk with
    | none => simpa [MirrorSender.sealing, MirrorSender.sendChunk, hpending, hencode] using h.out
    | some bytes =>
      have hone : [(chunk, t.chunks.length)].filterMap (packetOf x key epoch) =
          (t.tx.rt.seal x bytes).2.toOption.toList := by
        rw [Channel.seal_eq, hcipher, hsalt, haad, hseq]
        simp only [packetOf, hencode, List.filterMap_cons, List.filterMap_nil, Option.bind_eq_bind, Option.bind_some]
        cases x.aead.encrypt key (nonce SALT_INITIATOR (BitVec.ofNat 64 t.chunks.length)) bytes (beBytes epoch) <;> rfl
      have hchunks : (t.tx.sealing x .chunk).map Prod.fst = [chunk] := by
        simp [MirrorSender.sealing, hpending, hencode]
      dsimp only
      rw [hchunks, List.zipIdx_append, List.filterMap_append, ← h.out]
      simp only [List.zipIdx_singleton, Nat.zero_add, hone, MirrorSender.sendChunk, hencode]
      cases (t.tx.rt.seal x bytes).2 with
      | error err => exact (List.append_nil _).symm
      | ok packet => rfl
  case h_3 hpending =>
    cases htx
    simpa [MirrorSender.sealing, hpending] using h.out
  case h_4 => cases htx

theorem run_sent {core : AppCore x} {role : Role} {ip : IpAddr} {cert : Bytes} {es : List MirroringEvent}
    (hrun : Machine.run (step ar y) (initial core role ip key cert epoch) es = some t) :
    SentInv (deriveSubkey x key (asBytes "video")) epoch t := by
  refine run_invariant (P := SentInv (deriveSubkey x key (asBytes "video")) epoch) ?_ ?_ es t hrun
  · exact ⟨⟨⟨rfl, rfl, rfl, rfl⟩, rfl, nofun, ⟨[], rfl, rfl⟩, nofun⟩, rfl⟩
  · intro t e u h hstep
    cases e with
    | tx event => exact h.tx hstep
    | halt =>
      cases hstep
      exact ⟨⟨h.sender.rt, h.sender.frameId, h.sender.counted, h.sender.progress, h.sender.log⟩, h.out⟩
    | view event =>
      obtain ⟨view, -, rfl⟩ := Option.map_eq_some_iff.mp hstep
      exact ⟨⟨h.sender.rt, h.sender.frameId, h.sender.counted, h.sender.progress, h.sender.log⟩, h.out⟩

/-! ### What arrives -/

/-- Thread `i` receives the packets, one in each turn of its loop. -/
def turns (i : ℕ) (packets : List Bytes) : List MirroringEvent :=
  packets.flatMap fun packet => [.view (.head i), .view (.received i (some packet))]

/-- Thread `i` is at its loop head and has not been told to stop. -/
structure Ready (t : Mirroring x) (i : ℕ) (rt : RealtimeCrypto) (re : Reassembler) : Prop where
  receiver : t.view.session.receivers[i]? = some ⟨rt, false⟩
  thread : t.view.threads[i]? = some ⟨.looping, re⟩

variable (ar y) in
theorem Ready.turn {i : ℕ} {rt : RealtimeCrypto} {re : Reassembler} (h : Ready t i rt re) (packet : Bytes) :
    ∃ u th shown, Machine.run (step ar y) t [.view (.head i), .view (.received i (some packet))] = some u ∧
      Viewing.Received x y re ⟨rt, false⟩ packet th shown ∧
      u.view.session.receivers[i]? = some ⟨(rt.open x packet).1, false⟩ ∧ u.view.threads[i]? = some th ∧
      u.shownBy i = t.shownBy i ++ shown.toList := by
  have hi := (List.getElem?_eq_some_iff.mp h.thread).1
  have hj := (List.getElem?_eq_some_iff.mp h.receiver).1
  let v := t.view.setThread i ⟨.receiving, re⟩
  have hhead : t.view.step ar y (.head i) = some v := by
    simp only [Viewing.step, h.thread, h.receiver]
    rfl
  have hth : v.threads[i]? = some ⟨.receiving, re⟩ := List.getElem?_set_self hi
  obtain ⟨th, shown, hreceived, hshows, hv⟩ := Viewing.receive_spec (y := y) hth h.receiver packet
  have hstep : v.step ar y (.received i (some packet)) = some (v.receive y i ⟨.receiving, re⟩ ⟨rt, false⟩ packet) := by
    have hr : v.session.receivers[i]? = some ⟨rt, false⟩ := h.receiver
    simp only [Viewing.step, hth, hr]
  refine ⟨{ t with
    view := v.receive y i ⟨.receiving, re⟩ ⟨rt, false⟩ packet
    shown := t.shown ++ [] ++ (v.shows y (.received i (some packet))).toList }, th, shown, ?_, hreceived, ?_, ?_, ?_⟩
  · simp only [Machine.run, step, hhead, Option.map_some, Option.bind_some, hstep]
    rfl
  · rw [hv]
    exact List.getElem?_set_self hj
  · rw [hv]
    exact List.getElem?_set_self (by simpa [v, Viewing.setThread] using hi)
  · dsimp only [shownBy]
    rw [hshows, List.append_nil, List.filter_append, List.map_append]
    cases shown <;> simp

variable (ar y) in
theorem Ready.turn_added {i : ℕ} {rt : RealtimeCrypto} {re : Reassembler} (h : Ready t i rt re) {packet : Bytes}
    {err : Error} (hopen : (rt.open x packet).2 = .error err) :
    ∃ u, Machine.run (step ar y) t [.view (.head i), .view (.received i (some packet))] = some u ∧ Ready u i rt re ∧
      u.shownBy i = t.shownBy i := by
  obtain ⟨u, th, shown, hu, hreceived, hr, hth, hshown⟩ := h.turn ar y packet
  rw [open_error hopen] at hr
  cases hreceived with
  | dropped hnot => exact ⟨u, hu, ⟨hr, hth⟩, by simpa using hshown⟩
  | panicked seq pt chunk hok hchunk hpush => cases hopen.symm.trans hok
  | pushed seq pt chunk re' out hok hchunk hpush => cases hopen.symm.trans hok

variable (ar) in
theorem Ready.turn_genuine {i : ℕ} {rt : RealtimeCrypto} {re re' : Reassembler} (h : Ready t i rt re) {packet pt : Bytes}
    {seq : BitVec 64} {c : VideoChunk} {out : Option (Bool × Bytes)} (hopen : (rt.open x packet).2 = .ok (seq, pt))
    (hdecode : y.decodeChunk pt = some c) (hpush : re.push c = some (re', out)) :
    ∃ u, Machine.run (step ar y) t [.view (.head i), .view (.received i (some packet))] = some u ∧
      Ready u i (rt.open x packet).1 re' ∧
      u.shownBy i = t.shownBy i ++ (out.bind fun f => y.loadJpeg f.2).toList := by
  obtain ⟨u, th, shown, hu, hreceived, hr, hth, hshown⟩ := h.turn ar y packet
  cases hreceived with
  | dropped hnot => cases (hnot seq pt hopen).symm.trans hdecode
  | panicked seq' pt' chunk hok hchunk hpanic =>
    cases hopen.symm.trans hok
    obtain rfl : c = chunk := Option.some.inj (hdecode.symm.trans hchunk)
    cases hpush.symm.trans hpanic
  | pushed seq' pt' chunk re₁ out' hok hchunk hpush' =>
    cases hopen.symm.trans hok
    obtain rfl : c = chunk := Option.some.inj (hdecode.symm.trans hchunk)
    cases hpush.symm.trans hpush'
    exact ⟨u, hu, ⟨hr, hth⟩, hshown⟩

theorem sealedAs_of_packetOf {c : VideoChunk} {k : ℕ} {packet : Bytes} (h : packetOf x key epoch (c, k) = some packet) :
    ∃ pt, x.encodeChunk c = some pt ∧ SealedAs x key epoch (BitVec.ofNat 64 k) pt packet := by
  simp only [packetOf, Option.bind_eq_bind, Option.bind_eq_some_iff, Option.pure_def, Option.some.injEq] at h
  obtain ⟨pt, hencode, ct, hencrypt, rfl⟩ := h
  exact ⟨pt, hencode, ct, hencrypt, rfl⟩

theorem open_below (hcorrect : x.aead.Correct) {rt : RealtimeCrypto} {k : ℕ} (h : Opened key epoch rt {n | n < k})
    (hk : k < 2 ^ 64) {pt packet : Bytes} (hsealed : SealedAs x key epoch (BitVec.ofNat 64 k) pt packet) :
    (rt.open x packet).2 = .ok (BitVec.ofNat 64 k, pt) ∧ Opened key epoch (rt.open x packet).1 {n | n < k + 1} := by
  have hnat : (BitVec.ofNat 64 k).toNat = k := by rw [BitVec.toNat_ofNat, Nat.mod_eq_of_lt hk]
  obtain ⟨hopen, hopened⟩ := h.open_next hcorrect (fun a ha => hnat.symm ▸ ha) hsealed
  refine ⟨hopen, ?_⟩
  convert hopened using 1
  ext n
  rw [hnat, Set.mem_insert_iff]
  exact Nat.lt_succ_iff_lt_or_eq.trans or_comm

variable (ar) in
/-- The rest of the stream arrives. -/
theorem Ready.run_turns (hpostcard : ∀ c bytes, x.encodeChunk c = some bytes → y.decodeChunk bytes = some c)
    (hcorrect : x.aead.Correct) {i : ℕ} {done rest arriving : List Bytes} (hmixed : Mixed x key epoch done rest arriving)
    {rt : RealtimeCrypto} {cs : List VideoChunk} {k : ℕ} {v w : Viewer} (hready : Ready t i rt v.re)
    (hopened : Opened key epoch rt {n | n < k}) (hk : k + cs.length < 2 ^ 64)
    (hdone : ∀ p ∈ done, ∃ seq pt, SealedAs x key epoch seq pt p ∧ seq.toNat < k)
    (hsealed : ∀ c ∈ cs.zipIdx k, (packetOf x key epoch c).isSome)
    (hrest : rest = (cs.zipIdx k).filterMap (packetOf x key epoch)) (hrun : Machine.run Viewer.step v cs = some w) :
    ∃ u more, Machine.run (step ar y) t (turns i arriving) = some u ∧ w.returned = v.returned ++ more ∧
      u.shownBy i = t.shownBy i ++ more.filterMap fun f => y.loadJpeg f.2.2 := by
  induction hmixed generalizing t rt cs k v with
  | nil done =>
    -- the stream is at its end
    cases cs with
    | nil =>
      cases hrun
      exact ⟨t, [], rfl, (List.append_nil _).symm, (List.append_nil _).symm⟩
    | cons c cs =>
      rw [List.zipIdx_cons] at hrest hsealed
      obtain ⟨p, hp⟩ := Option.isSome_iff_exists.mp (hsealed _ (List.mem_cons_self ..))
      rw [List.filterMap_cons_some hp] at hrest
      cases hrest
  | added done packet rest arriving hadded h ih =>
    obtain ⟨err, herr⟩ := hopened.open_added hdone hadded
    obtain ⟨t', ht', hready', hshown'⟩ := hready.turn_added ar y herr
    obtain ⟨u, more, hu, hreturned, hshown⟩ := ih hready' hopened hk hdone hsealed hrest hrun
    exact ⟨u, more, (run_append_eq_some _).mpr ⟨t', ht', hu⟩, hreturned, by rw [hshown, hshown']⟩
  | genuine done packet rest arriving h ih =>
    cases cs with
    | nil => cases hrest
    | cons c cs =>
      rw [List.zipIdx_cons] at hrest hsealed
      obtain ⟨p, hp⟩ := Option.isSome_iff_exists.mp (hsealed _ (List.mem_cons_self ..))
      rw [List.filterMap_cons_some hp] at hrest
      obtain ⟨rfl, rfl⟩ := List.cons.inj hrest
      rw [List.length_cons] at hk
      obtain ⟨pt, hencode, hpacket⟩ := sealedAs_of_packetOf hp
      obtain ⟨hopen, hopened'⟩ := open_below hcorrect hopened (by omega) hpacket
      obtain ⟨v', hv', hrest'⟩ := Option.bind_eq_some_iff.mp hrun
      obtain ⟨⟨re', out⟩, hpush, rfl⟩ := Option.map_eq_some_iff.mp hv'
      obtain ⟨t', ht', hready', hshown'⟩ :=
        hready.turn_genuine ar hopen (hpostcard c pt hencode) hpush
      obtain ⟨u, more, hu, hreturned, hshown⟩ := ih (v := ⟨re', _⟩) hready' hopened' (by omega) (fun q hq => by
        rcases List.mem_append.mp hq with hold | hnew
        · obtain ⟨seq, pt, hq, hseq⟩ := hdone q hold
          exact ⟨seq, pt, hq, by omega⟩
        · refine ⟨_, pt, List.mem_singleton.mp hnew ▸ hpacket, ?_⟩
          rw [BitVec.toNat_ofNat, Nat.mod_eq_of_lt (by omega)]
          omega)
        (fun d hd => hsealed d (List.mem_cons_of_mem _ hd)) rfl hrest'
      refine ⟨u, (out.toList.map fun f => (c.frameId, f)) ++ more, (run_append_eq_some _).mpr ⟨t', ht', hu⟩, ?_, ?_⟩
      · rw [hreturned, List.append_assoc]
      · rw [hshown, hshown', List.append_assoc, List.filterMap_append]
        congr 2
        cases out with
        | none => rfl
        | some f => cases hload : y.loadJpeg f.2 <;> simp [hload]

/-- A sender between two frames, all of whose chunks could be serialized and encrypted, and a receiver thread that has
just started: when the sender's packets arrive in order and none is lost, the thread shows every image that was encoded,
in order, whatever packets the network has added or repeated in between. -/
theorem lossless_shows_all (hpostcard : ∀ c bytes, x.encodeChunk c = some bytes → y.decodeChunk bytes = some c)
    (hcorrect : x.aead.Correct) {core : AppCore x} {role : Role} {ip : IpAddr} {cert : Bytes}
    {es : List MirroringEvent} (hrun : Machine.run (step ar y) (initial core role ip key cert epoch) es = some t)
    (hpending : t.tx.pending = none) (hnumbered : Numbered t.encoded)
    (hsealed : ∀ c ∈ ((framesOf t.encoded).flatMap Frame.chunks).zipIdx,
      (packetOf x (deriveSubkey x key (asBytes "video")) epoch c).isSome)
    {i : ℕ} (hready : Ready t i (.new (deriveSubkey x key (asBytes "video")) epoch false) {}) {arriving : List Bytes}
    (hmixed : Mixed x (deriveSubkey x key (asBytes "video")) epoch [] t.tx.out arriving) :
    ∃ u, Machine.run (step ar y) t (turns i arriving) = some u ∧
      u.shownBy i = t.shownBy i ++ t.encoded.filterMap fun d => y.loadJpeg d.2 := by
  obtain ⟨hsender, hout⟩ := run_sent hrun
  obtain ⟨done, hdone, hchunks⟩ := hsender.progress
  rw [hpending, Option.getD_none, List.append_nil] at hdone
  have hall : t.chunks = (framesOf t.encoded).flatMap Frame.chunks := by
    rw [hchunks, hdone, List.filter_eq_self]
    intro c hc
    obtain ⟨k, hk⟩ := List.mem_iff_getElem?.mp hc
    have hpacket := hsealed (c, k) (List.mk_mem_zipIdx_iff_getElem?.mpr (hdone ▸ hk))
    cases hencode : x.encodeChunk c with
    | none => simp [packetOf, hencode] at hpacket
    | some bytes => rfl
  obtain ⟨w, hw, hreturned⟩ := Viewer.run_frames (v := {}) hnumbered.sendable.counts rfl
  have hopened : Opened (deriveSubkey x key (asBytes "video")) epoch
      (.new (deriveSubkey x key (asBytes "video")) epoch false) {n | n < 0} := by
    convert Opened.new _ _ using 1
    ext n
    simp
  obtain ⟨u, more, hu, hmore, hshown⟩ := Ready.run_turns ar (v := {}) hpostcard hcorrect hmixed hready hopened
    (by simpa using hnumbered.length_chunks_lt) nofun hsealed (by rw [hout, hall]) hw
  refine ⟨u, hu, ?_⟩
  have hframes : (framesOf t.encoded).map (fun f => f.payload) = t.encoded.map Prod.snd := by
    conv_rhs => rw [← List.zipIdx_map_fst 0 t.encoded]
    rw [framesOf, List.map_map, List.map_map]
    rfl
  rw [hshown, ← List.nil_append more, ← hmore, hreturned, List.nil_append, List.filterMap_map]
  congr 1
  calc (framesOf t.encoded).filterMap (fun f => y.loadJpeg f.payload)
      = ((framesOf t.encoded).map fun f => f.payload).filterMap y.loadJpeg := by rw [List.filterMap_map]; rfl
    _ = t.encoded.filterMap fun d => y.loadJpeg d.2 := by rw [hframes, List.filterMap_map]; rfl

theorem greyAead_correct : greyAead.Correct := by
  intro key nonce msg aad ct h
  simp only [greyAead] at h ⊢
  split_ifs at h with hstream hgrey hpale
  · obtain ⟨rfl, rfl⟩ := hgrey
    cases h
    rw [if_pos hstream, if_pos ⟨rfl, rfl⟩]
  · obtain ⟨rfl, rfl⟩ := hpale
    cases h
    have hne : ¬ (nonce SALT_INITIATOR 1 = nonce SALT_INITIATOR 0 ∧ paleCt = greyCt) := by decide
    rw [if_pos hstream, if_neg hne, if_pos ⟨rfl, rfl⟩]

/-- Bob sends two frames. -/
def sentTwo : List MirroringEvent :=
  sent ++ [.tx (.head (.encoded true paleJpeg)), .tx .chunk, .tx .chunk]

/-- The packets arrive after a truncated one, and the first of them once more after the second. -/
def strayAndRepeated : List Bytes :=
  [[0, 0, 0], beBytes 0 ++ greyCt, beBytes 1 ++ paleCt, beBytes 0 ++ greyCt]

theorem lossless_shows_all_grey :
    ∃ t u, Machine.run (step .exact greyVideo) greyInitial (asked ++ sentTwo) = some t ∧
      Machine.run (step .exact greyVideo) t (turns 0 strayAndRepeated) = some u ∧
      u.shownBy 0 = [greyImage, paleImage] := by
  obtain ⟨t, hrun, hshown, hencoded, hpending, hout, hre, hrt⟩ : ∃ t, Machine.run (step .exact greyVideo) greyInitial
      (asked ++ sentTwo) = some t ∧ t.shown = [] ∧ t.encoded = [(true, greyJpeg), (true, paleJpeg)] ∧
      t.tx.pending = none ∧ t.tx.out = [beBytes 0 ++ greyCt, beBytes 1 ++ paleCt] ∧
      t.view.threads[0]? = some ⟨.looping, {}⟩ ∧
      (t.view.session.receivers[0]?.map fun r => (r.rt, r.stop)) =
        some (.new (deriveSubkey greyCrates demoKey (asBytes "video")) 5 false, false) :=
    exists_run (by decide +kernel)
  obtain ⟨r, hr, hrt⟩ := Option.map_eq_some_iff.mp hrt
  have hnumbered : Numbered t.encoded := by
    rw [hencoded]
    exact ⟨by decide, by decide +kernel⟩
  have hsealed : ∀ c ∈ ((framesOf t.encoded).flatMap Frame.chunks).zipIdx,
      (packetOf greyCrates (deriveSubkey greyCrates demoKey (asBytes "video")) 5 c).isSome := by
    rw [hencoded]
    decide +kernel
  have hready : Ready t 0 (.new (deriveSubkey greyCrates demoKey (asBytes "video")) 5 false) {} := by
    obtain ⟨hrt, hstop⟩ := Prod.mk.inj hrt
    exact ⟨by rw [hr, ← hrt, ← hstop], hre⟩
  have hmixed : Mixed greyCrates (deriveSubkey greyCrates demoKey (asBytes "video")) 5 [] t.tx.out
      strayAndRepeated := by
    rw [hout]
    exact .added _ _ _ _ (Or.inr (Or.inl (by decide))) (.genuine _ _ _ _ (.genuine _ _ _ _
      (.added _ _ _ _ (Or.inl (by simp)) (.nil _))))
  obtain ⟨u, hu, hall⟩ := lossless_shows_all greyVideo_decodeChunk greyAead_correct hrun hpending hnumbered hsealed
    hready hmixed
  refine ⟨t, u, hrun, hu, ?_⟩
  rw [hall, hencoded, shownBy, hshown]
  decide +kernel

end Mirroring

end ScreenLink
