import Mathlib.Data.List.Nodup
import ScreenLink.Session.Mirroring
import ScreenLink.Video.Headers

/-!
# What the watching device shows

The invariant of a mirror stream (`Mirroring.Inv`): what the thread has opened are distinct chunks of the sender, its
reassembler is the one that these chunks have been pushed into, and what it has shown are the images in the frames that
were returned. With `Viewer.returned_once` that is a selection of the encoded frames.
-/

namespace ScreenLink

deriving instance DecidableEq for RgbaFrame

/-! ### The chunks of a stream -/

namespace Frame

theorem nodup_chunks {f : Frame} (hlen : f.chunks.length ≤ 65535) : f.chunks.Nodup := by
  rw [List.nodup_iff_getElem?_ne_getElem?]
  intro i j hij hj heq
  have hc := List.getElem?_eq_getElem hj
  have hlate := (header_of_getElem? hlen hc).1
  have hearly := (header_of_getElem? hlen (heq.trans hc)).1
  omega

end Frame

theorem mem_framesOf {encoded : List (Bool × Bytes)} {f : Frame} :
    f ∈ framesOf encoded ↔
      ∃ j d, encoded[j]? = some d ∧ f = ⟨BitVec.ofNat 32 j, d.1, d.2, DEFAULT_MAX_CHUNK⟩ := by
  unfold framesOf
  rw [List.mem_map]
  constructor
  · rintro ⟨⟨d, j⟩, hmem, rfl⟩
    exact ⟨j, d, List.mk_mem_zipIdx_iff_getElem?.mp hmem, rfl⟩
  · rintro ⟨j, d, hget, rfl⟩
    exact ⟨(d, j), List.mk_mem_zipIdx_iff_getElem?.mpr hget, rfl⟩

/-- The streams whose frame ids and chunk numbers are exact: at most `2^32` frames, each of at most 65535 chunks. -/
structure Numbered (encoded : List (Bool × Bytes)) : Prop where
  few : encoded.length ≤ 2 ^ 32
  small : ∀ d ∈ encoded, d.2.length ≤ 65535 * DEFAULT_MAX_CHUNK

namespace Numbered

variable {encoded : List (Bool × Bytes)}

theorem id_toNat (h : Numbered encoded) {j : ℕ} {d : Bool × Bytes} (hd : encoded[j]? = some d) :
    (BitVec.ofNat 32 j).toNat = j := by
  have hlt := (List.getElem?_eq_some_iff.mp hd).1
  have hfew := h.few
  rw [BitVec.toNat_ofNat]
  exact Nat.mod_eq_of_lt (by omega)

theorem sendable (h : Numbered encoded) : Viewer.Sendable {f | f ∈ framesOf encoded} where
  ids := by
    intro f hf g hg hid
    obtain ⟨j, d, hj, rfl⟩ := mem_framesOf.mp hf
    obtain ⟨k, d', hk, rfl⟩ := mem_framesOf.mp hg
    have heq := congrArg BitVec.toNat hid
    dsimp only at heq
    rw [h.id_toNat hj, h.id_toNat hk] at heq
    subst heq
    obtain rfl : d = d' := Option.some.inj (hj.symm.trans hk)
    rfl
  counts := by
    intro f hf
    obtain ⟨j, d, hj, rfl⟩ := mem_framesOf.mp hf
    rw [Frame.chunks, length_splitFrame, length_slices_le_iff (by decide)]
    exact h.small d (List.mem_of_getElem? hj)

theorem nodup_chunks (h : Numbered encoded) : ((framesOf encoded).flatMap Frame.chunks).Nodup := by
  rw [List.nodup_flatMap]
  refine ⟨fun f hf => Frame.nodup_chunks (h.sendable.counts f hf), ?_⟩
  rw [List.pairwise_iff_getElem]
  intro i j hi hj hij
  refine List.disjoint_left.mpr fun c hc hc' => ?_
  have hfi := h.sendable.counts _ (List.getElem_mem hi)
  have hfj := h.sendable.counts _ (List.getElem_mem hj)
  have hid := (Frame.mem_chunks hfi hc).1.symm.trans (Frame.mem_chunks hfj hc').1
  have heq := congrArg BitVec.toNat hid
  simp only [framesOf, List.getElem_map, List.getElem_zipIdx, Nat.zero_add] at heq
  simp only [framesOf, List.length_map, List.length_zipIdx] at hi hj
  rw [h.id_toNat (List.getElem?_eq_getElem hi), h.id_toNat (List.getElem?_eq_getElem hj)] at heq
  omega

end Numbered

namespace Mirroring

open Machine RealtimeCrypto

variable {x : Crates} {ar : Arith} {y : VideoCrates} {key : SessionKey} {epoch : BitVec 64} {t u : Mirroring x}
  {e : MirroringEvent}

/-! ### A thread -/

/-- Thread `i` has opened the packets with the numbers `ks`, in this order, and pushed their chunks `cs`. -/
structure Watches (y : VideoCrates) (t : Mirroring x) (i : ℕ) (rt : RealtimeCrypto) (re : Reassembler)
    (ks : List ℕ) (cs : List VideoChunk) (v : Viewer) : Prop where
  numbers : (ks.map (BitVec.ofNat 64)).Nodup
  window : rt.replay.Tracks {n | ∃ k ∈ ks, (BitVec.ofNat 64 k).toNat = n}
  chunks : cs.map some = ks.map (t.chunks[·]?)
  run : Machine.run Viewer.step {} cs = some v
  re : v.re = re
  shown : t.shownBy i = v.returned.filterMap fun f => y.loadJpeg f.2.2

/-- The channel of a receiver, and if it is of this stream, what its thread has done. -/
structure Receives (y : VideoCrates) (epoch : BitVec 64) (t : Mirroring x) (i : ℕ)
    (rt : RealtimeCrypto) (re : Reassembler) : Prop where
  salt : rt.recvSalt = SALT_INITIATOR
  watches : rt.aad = beBytes epoch → ∃ ks cs v, Watches y t i rt re ks cs v

theorem watches_new {i : ℕ} {key : SessionKey} {epoch' : BitVec 64} (hshown : t.shownBy i = []) :
    Watches y t i (.new key epoch' false) {} [] [] {} where
  numbers := List.nodup_nil
  window := by
    have hempty : {n | ∃ k ∈ ([] : List ℕ), (BitVec.ofNat 64 k).toNat = n} = ∅ := by
      ext n
      simp
    rw [hempty]
    exact ReplayWindow.tracks_default
  chunks := rfl
  run := rfl
  re := rfl
  shown := hshown

theorem Watches.more {i : ℕ} {rt : RealtimeCrypto} {re : Reassembler} {ks : List ℕ} {cs : List VideoChunk} {v : Viewer}
    (h : Watches y t i rt re ks cs v) {news : List VideoChunk} (hchunks : u.chunks = t.chunks ++ news)
    (hshown : u.shownBy i = t.shownBy i) : Watches y u i rt re ks cs v := by
  refine ⟨h.numbers, h.window, ?_, h.run, h.re, hshown.trans h.shown⟩
  rw [h.chunks]
  apply List.map_congr_left
  intro k hk
  have hmem : t.chunks[k]? ∈ cs.map some := by
    rw [h.chunks]
    exact List.mem_map_of_mem hk
  obtain ⟨c, -, hc⟩ := List.mem_map.mp hmem
  rw [hchunks, List.getElem?_append_left (List.getElem?_eq_some_iff.mp hc.symm).1]

theorem Watches.push {i : ℕ} {rt : RealtimeCrypto} {re re' : Reassembler} {ks : List ℕ} {cs : List VideoChunk}
    {v : Viewer} (h : Watches y t i rt re ks cs v) {k : ℕ} {c : VideoChunk} {out : Option (Bool × Bytes)}
    (hk : t.chunks[k]? = some c) (haccept : (rt.replay.accept (BitVec.ofNat 64 k)).2 = true)
    (hpush : re.push c = some (re', out)) (hchunks : u.chunks = t.chunks)
    (hshown : u.shownBy i = t.shownBy i ++ (out.bind fun f => y.loadJpeg f.2).toList) :
    Watches y u i { rt with replay := (rt.replay.accept (BitVec.ofNat 64 k)).1 } re' (ks ++ [k]) (cs ++ [c])
      ⟨re', v.returned ++ out.toList.map fun f => (c.frameId, f)⟩ := by
  rcases ReplayWindow.accept_cases h.window (BitVec.ofNat 64 k) with ⟨hfresh, -, htracks⟩ | ⟨-, hfalse⟩
  · refine ⟨?_, ?_, ?_, ?_, rfl, ?_⟩
    · rw [List.map_append, List.nodup_append]
      refine ⟨h.numbers, List.nodup_singleton _, ?_⟩
      rintro n hn m hm rfl
      obtain ⟨k', hk', rfl⟩ := List.mem_map.mp hn
      rw [List.map_singleton, List.mem_singleton] at hm
      exact hfresh.1 ⟨k', hk', congrArg BitVec.toNat hm⟩
    · convert htracks using 1
      ext n
      simp only [List.mem_append, List.mem_singleton, Set.mem_insert_iff]
      constructor
      · rintro ⟨k', hk' | rfl, rfl⟩
        · exact Or.inr ⟨k', hk', rfl⟩
        · exact Or.inl rfl
      · rintro (rfl | ⟨k', hk', rfl⟩)
        · exact ⟨k, Or.inr rfl, rfl⟩
        · exact ⟨k', Or.inl hk', rfl⟩
    · rw [List.map_append, List.map_append, hchunks, h.chunks]
      simp [hk]
    · refine (run_snoc_eq_some _).mpr ⟨v, h.run, ?_⟩
      rw [Viewer.step, h.re, hpush]
      rfl
    · rw [hshown, h.shown, List.filterMap_append]
      cases out with
      | none => simp
      | some f => cases hload : y.loadJpeg f.2 <;> simp [hload]
  · rw [hfalse] at haccept
    cases haccept

theorem Watches.push_ne_none {i : ℕ} {rt : RealtimeCrypto} {re : Reassembler} {ks : List ℕ} {cs : List VideoChunk}
    {v : Viewer} (h : Watches y t i rt re ks cs v) (c : VideoChunk) : re.push c ≠ none := by
  intro hnone
  obtain ⟨w, hw, -⟩ := Viewer.run_inv (cs ++ [c])
  obtain ⟨v', hv', hstep⟩ := (run_snoc_eq_some _).mp hw
  obtain rfl : v = v' := Option.some.inj (h.run.symm.trans hv')
  rw [Viewer.step, h.re, hnone] at hstep
  cases hstep

/-! ### The invariant -/

structure Inv (y : VideoCrates) (key : SessionKey) (epoch : BitVec 64) (t : Mirroring x) : Prop where
  sender : SenderInv (deriveSubkey x key (asBytes "video")) epoch t
  view : t.view.Inv
  receives : ∀ i r th, t.view.session.receivers[i]? = some r → t.view.threads[i]? = some th →
    Receives y epoch t i r.rt th.re
  /-- Only threads that have been started have shown something. -/
  shown : ∀ s ∈ t.shown, s.1 < t.view.threads.length
  slot : ∀ img, t.view.core.videoFrame = some img → ∃ i, (i, img) ∈ t.shown

theorem shownBy_of_notMem {i : ℕ} (h : ∀ s ∈ t.shown, s.1 ≠ i) : t.shownBy i = [] := by
  simpa [shownBy, List.filter_eq_nil_iff] using fun a b hab => h (a, b) hab

theorem inv_initial {core : AppCore x} (hcore : core.videoFrame = none) (role : Role) (ip : IpAddr) (cert : Bytes) :
    Inv y key epoch (initial core role ip key cert epoch) where
  sender := ⟨⟨rfl, rfl, rfl, rfl⟩, rfl, nofun, ⟨[], rfl, rfl⟩, nofun⟩
  view := Viewing.initial_inv
  receives := nofun
  shown := nofun
  slot := by
    intro img himg
    exact absurd (hcore.symm.trans himg) nofun

theorem Inv.sends (h : Inv y key epoch t) (hsender : SenderInv (deriveSubkey x key (asBytes "video")) epoch u)
    (news : List VideoChunk) (hchunks : u.chunks = t.chunks ++ news) (hview : u.view = t.view)
    (hshown : u.shown = t.shown) : Inv y key epoch u where
  sender := hsender
  view := hview ▸ h.view
  receives i r th hr hth := by
    rw [hview] at hr hth
    obtain ⟨hsalt, hwatches⟩ := h.receives i r th hr hth
    refine ⟨hsalt, fun haad => ?_⟩
    obtain ⟨ks, cs, v, hv⟩ := hwatches haad
    exact ⟨ks, cs, v, hv.more hchunks (by rw [shownBy, shownBy, hshown])⟩
  shown := by
    rw [hshown, hview]
    exact h.shown
  slot := by
    rw [hshown, hview]
    exact h.slot

theorem Inv.tx (h : Inv y key epoch t) {event : SenderEvent} (hstep : t.step ar y (.tx event) = some u) :
    Inv y key epoch u := by
  obtain ⟨tx, htx, rfl⟩ := Option.map_eq_some_iff.mp hstep
  exact h.sends (h.sender.tx htx) _ rfl rfl rfl

/-- A packet comes to a thread: it is dropped, or it is the next chunk that the thread pushes. -/
theorem Receives.received (hpostcard : ∀ c bytes, x.encodeChunk c = some bytes → y.decodeChunk bytes = some c)
    (hsender : SenderInv (deriveSubkey x key (asBytes "video")) epoch t) {i : ℕ} {r : MirrorReceiver} {re : Reassembler}
    (h : Receives y epoch t i r.rt re) {packet : Bytes} (hr : t.view.session.receivers[i]? = some r)
    (hideal : ¬ Forged epoch t (.view (.received i (some packet)))) {th : ReceiverThread} {shown : Option RgbaFrame}
    (hreceived : Viewing.Received x y re r packet th shown) (hchunks : u.chunks = t.chunks)
    (hshown : u.shownBy i = t.shownBy i ++ shown.toList) : Receives y epoch u i (r.rt.open x packet).1 th.re := by
  obtain ⟨replay, hrt⟩ := RealtimeCrypto.open_fst x r.rt packet
  refine ⟨by rw [hrt]; exact h.salt, fun haad => ?_⟩
  rw [hrt] at haad
  obtain ⟨ks, cs, v, hv⟩ := h.watches haad
  cases hreceived with
  | dropped hdecode =>
    refine ⟨ks, cs, v, ?_⟩
    cases hopen : (r.rt.open x packet).2 with
    | error err =>
      rw [open_error hopen]
      exact hv.more (hchunks.trans (List.append_nil _).symm) (by simpa using hshown)
    | ok res =>
      -- a chunk of the sender can be deserialized
      obtain ⟨seq, pt⟩ := res
      obtain ⟨k, c, -, hencode, -⟩ := hsender.genuine hr h.salt haad hideal hopen
      cases (hdecode seq pt hopen).symm.trans (hpostcard c pt hencode)
  | panicked seq pt chunk hopen hchunk hpush => exact absurd hpush (hv.push_ne_none chunk)
  | pushed seq pt chunk re' out hopen hchunk hpush =>
    obtain ⟨k, c, hk, hencode, rfl⟩ := hsender.genuine hr h.salt haad hideal hopen
    obtain rfl : chunk = c := Option.some.inj (hchunk.symm.trans (hpostcard c pt hencode))
    obtain ⟨-, -, -, haccept, hopened⟩ := open_ok hopen
    rw [hopened]
    exact ⟨_, _, _, hv.push hk haccept hpush hchunks hshown⟩

theorem length_threads_le {v w : Viewing x} {event : ViewingEvent} (hstep : v.step ar y event = some w) :
    v.threads.length ≤ w.threads.length := by
  rcases Viewing.step_cases hstep with ⟨ev, p, -, hp, rfl⟩ | ⟨i, re, -, -, rfl⟩ | ⟨-, hgoes⟩
  · simp [Viewing.afterSession]
  · simp [Viewing.setThread]
  · obtain ⟨i, th, th', -, hset, -⟩ := hgoes.thread
    rw [hset, List.length_set]

theorem lt_of_shows {v : Viewing x} {event : ViewingEvent} {i : ℕ} {img : RgbaFrame}
    (h : v.shows y event = some (i, img)) : i < v.threads.length := by
  unfold Viewing.shows at h
  split at h
  · rename_i j packet
    split at h
    · rename_i re r hth hr
      split at h
      · cases h
      · simp only [Option.bind_eq_bind, Option.bind_eq_some_iff, Option.pure_def, Option.some.injEq, Prod.mk.injEq] at h
        obtain ⟨-, -, -, -, -, -, rfl, -⟩ := h
        exact (List.getElem?_eq_some_iff.mp hth).1
    · cases h
  · cases h

theorem Inv.watches (hpostcard : ∀ c bytes, x.encodeChunk c = some bytes → y.decodeChunk bytes = some c)
    (h : Inv y key epoch t) {event : ViewingEvent} (hideal : ¬ Forged epoch t (.view event))
    (hstep : t.step ar y (.view event) = some u) : Inv y key epoch u := by
  obtain ⟨view, hview, rfl⟩ := Option.map_eq_some_iff.mp hstep
  have hlen : t.view.threads.length = t.view.session.receivers.length := by
    rw [h.view.length, Viewing.marks, List.length_map]
  have hshownBy : ∀ i, shownBy { t with view := view, shown := t.shown ++ (t.view.shows y event).toList } i =
      t.shownBy i ++ (((t.view.shows y event).toList.filter fun s => s.1 = i).map Prod.snd) := by
    intro i
    rw [shownBy, List.filter_append, List.map_append]
    rfl
  have hsame : ∀ i, (∀ img, t.view.shows y event ≠ some (i, img)) →
      shownBy { t with view := view, shown := t.shown ++ (t.view.shows y event).toList } i = t.shownBy i := by
    intro i hnot
    rw [hshownBy]
    cases hs : t.view.shows y event with
    | none => simp
    | some s =>
      have hne : s.1 ≠ i := fun heq => hnot s.2 (by rw [hs, ← heq])
      simp [hne]
  refine ⟨⟨h.sender.rt, h.sender.frameId, h.sender.counted, h.sender.progress, h.sender.log⟩,
    Viewing.step_inv h.view hview, ?_, ?_, ?_⟩
  · intro i r th hr hth
    cases Viewing.threadMove_of_step hlen hview hr hth with
    | kept r₀ r th₀ th hr₀ hth₀ hrt hre hshows =>
      obtain ⟨hsalt, hwatches⟩ := h.receives i r₀ th₀ hr₀ hth₀
      refine ⟨hrt ▸ hsalt, fun haad => ?_⟩
      obtain ⟨ks, cs, v, hv⟩ := hwatches (hrt ▸ haad)
      rw [hrt, hre]
      exact ⟨ks, cs, v, hv.more (List.append_nil _).symm (hsame i hshows)⟩
    | received packet re r₀ th shown hevent hr₀ hth₀ hreceived hshows =>
      subst hevent
      refine (h.receives i r₀ _ hr₀ hth₀).received hpostcard h.sender hr₀ hideal hreceived rfl ?_
      rw [hshownBy, hshows]
      cases shown <;> simp
    | started epoch' hi hshows =>
      refine ⟨rfl, fun haad => ⟨[], [], {}, watches_new ?_⟩⟩
      rw [hsame i (by simp [hshows])]
      exact shownBy_of_notMem fun s hs => by
        have := h.shown s hs
        omega
  · intro s hs
    have hle := length_threads_le hview
    rcases List.mem_append.mp hs with hold | hnew
    · exact (h.shown s hold).trans_le hle
    · have hs' : t.view.shows y event = some (s.1, s.2) := Option.mem_toList.mp hnew
      exact (lt_of_shows hs').trans_le hle
  · intro img himg
    rcases Viewing.videoFrame_of_step hview with hwritten | hnone
    · rw [himg] at hwritten
      cases hs : t.view.shows y event with
      | none =>
        rw [hs] at hwritten
        obtain ⟨i, hi⟩ := h.slot img hwritten.symm
        exact ⟨i, List.mem_append_left _ hi⟩
      | some s =>
        rw [hs] at hwritten
        refine ⟨s.1, List.mem_append_right _ ?_⟩
        rw [Option.some.inj hwritten]
        exact List.mem_singleton_self s
    · rw [himg] at hnone
      cases hnone

theorem run_inv (hpostcard : ∀ c bytes, x.encodeChunk c = some bytes → y.decodeChunk bytes = some c)
    {core : AppCore x} (hcore : core.videoFrame = none) {role : Role} {ip : IpAddr} {cert : Bytes}
    {es : List MirroringEvent} (hrun : Machine.run (step ar y) (initial core role ip key cert epoch) es = some t)
    (hideal : ¬ Seen (step ar y) (Forged epoch) (initial core role ip key cert epoch) es) : Inv y key epoch t := by
  revert hideal
  refine run_induction (P := fun es t =>
    ¬ Seen (step ar y) (Forged epoch) (initial core role ip key cert epoch) es → Inv y key epoch t) ?_ ?_ es t hrun
  · intro _
    exact inv_initial hcore role ip cert
  · intro es t e u ht ih hstep hideal
    rw [seen_snoc ht, not_or] at hideal
    have hinv := ih hideal.1
    cases e with
    | tx event => exact hinv.tx hstep
    | halt =>
      cases hstep
      refine hinv.sends ?_ [] (List.append_nil _).symm rfl rfl
      exact ⟨hinv.sender.rt, hinv.sender.frameId, hinv.sender.counted, hinv.sender.progress, hinv.sender.log⟩
    | view event => exact hinv.watches hpostcard hideal.2 hstep

theorem SenderInv.chunks_sublist {key : SessionKey} (h : SenderInv key epoch t) :
    t.chunks.Sublist ((framesOf t.encoded).flatMap Frame.chunks) := by
  obtain ⟨done, hdone, hchunks⟩ := h.progress
  rw [hdone, hchunks]
  exact List.filter_sublist.trans (List.sublist_append_left _ _)

/-- In every run of a mirror sender, a watching device and a network that does not forge packets: what is in the video
slot has been put there by a receiver thread, and what a receiver thread of the stream has shown are images the sender
has encoded, each of them once and whole. -/
theorem mirror_end_to_end (hpostcard : ∀ c bytes, x.encodeChunk c = some bytes → y.decodeChunk bytes = some c)
    {core : AppCore x} (hcore : core.videoFrame = none) {role : Role} {ip : IpAddr} {cert : Bytes}
    {es : List MirroringEvent} (hrun : Machine.run (step ar y) (initial core role ip key cert epoch) es = some t)
    (hideal : ¬ Seen (step ar y) (Forged epoch) (initial core role ip key cert epoch) es)
    (hnumbered : Numbered t.encoded) :
    (∀ img, t.view.core.videoFrame = some img → ∃ i, (i, img) ∈ t.shown) ∧
      ∀ i r, t.view.session.receivers[i]? = some r → r.rt.aad = beBytes epoch →
        ∃ js : List ℕ, js.Nodup ∧ (∀ j ∈ js, j < t.encoded.length) ∧
          t.shownBy i = js.filterMap fun j => t.encoded[j]?.bind fun d => y.loadJpeg d.2 := by
  have hinv := run_inv hpostcard hcore hrun hideal
  refine ⟨hinv.slot, fun i r hr haad => ?_⟩
  have hi : i < t.view.threads.length := by
    rw [hinv.view.length, Viewing.marks, List.length_map]
    exact (List.getElem?_eq_some_iff.mp hr).1
  obtain ⟨ks, cs, v, hv⟩ := (hinv.receives i r _ hr (List.getElem?_eq_getElem hi)).watches haad
  have hsublist := hinv.sender.chunks_sublist
  have hmem : ∀ c ∈ cs, ∃ k ∈ ks, t.chunks[k]? = some c := by
    intro c hc
    obtain ⟨k, hk, heq⟩ := List.mem_map.mp (hv.chunks ▸ List.mem_map_of_mem (f := some) hc)
    exact ⟨k, hk, heq⟩
  have hfrom : Viewer.FromFrames {f | f ∈ framesOf t.encoded} cs := by
    intro c hc
    obtain ⟨k, -, hk⟩ := hmem c hc
    exact List.mem_flatMap.mp (hsublist.subset (List.mem_of_getElem? hk))
  have hnodup : cs.Nodup := by
    have hchunks : (cs.map some).Nodup := by
      rw [hv.chunks]
      refine hv.numbers.of_map.map_on fun a ha b hb heq => ?_
      have hsome : t.chunks[a]? ∈ cs.map some := by
        rw [hv.chunks]
        exact List.mem_map_of_mem ha
      obtain ⟨c, -, hc⟩ := List.mem_map.mp hsome
      have hlt := (List.getElem?_eq_some_iff.mp hc.symm).1
      exact (List.getElem?_inj hlt (hnumbered.nodup_chunks.sublist hsublist)).mp heq
    exact hchunks.of_map
  obtain ⟨fs, hfs, hreturned, hall⟩ := Viewer.returned_once hnumbered.sendable hv.run hfrom hnodup
  -- the frames by their numbers
  have hplace : ∀ f ∈ fs, t.encoded[f.id.toNat]? = some (f.keyframe, f.payload) := by
    intro f hf
    obtain ⟨j, d, hj, rfl⟩ := mem_framesOf.mp (hall f hf).1
    dsimp only
    rw [hnumbered.id_toNat hj]
    exact hj
  refine ⟨fs.map fun f => f.id.toNat, ?_, ?_, ?_⟩
  · refine hfs.map_on fun f hf g hg heq => ?_
    exact hnumbered.sendable.ids f (hall f hf).1 g (hall g hg).1 (BitVec.eq_of_toNat_eq heq)
  · intro j hj
    obtain ⟨f, hf, rfl⟩ := List.mem_map.mp hj
    exact (List.getElem?_eq_some_iff.mp (hplace f hf)).1
  · rw [hv.shown, hreturned, List.filterMap_map, List.filterMap_map]
    apply List.filterMap_congr
    intro f hf
    simp [Function.comp_apply, hplace f hf, Frame.returned]

/-! ### Two frames -/

/-- A JPEG file of one grey pixel. -/
def greyJpeg : Bytes :=
  [255, 216, 255, 219, 0, 67, 0] ++ List.replicate 64 1 ++ [255, 192, 0, 11, 8, 0, 1, 0, 1, 1, 1, 17, 0] ++
    [255, 196, 0, 20, 0, 1] ++ List.replicate 16 0 ++ [255, 196, 0, 20, 16, 1] ++ List.replicate 16 0 ++
    [255, 218, 0, 8, 1, 1, 0, 0, 63, 0, 63, 255, 217]

def greyImage : RgbaFrame := ⟨1, 1, [128, 128, 128, 255]⟩

/-- The file as the only chunk of frame 0, and its bytes. -/
def greyChunk : VideoChunk := ⟨0, 0, 1, true, greyJpeg⟩

def greyBytes : Bytes := [0, 0, 1, 1, 141, 1] ++ greyJpeg

/-- What ChaCha20-Poly1305 makes of it under number 0 and epoch 5. -/
def greyCt : Bytes :=
  [45, 88, 163, 37, 251, 19, 71, 157, 251, 74, 7, 19, 190, 136, 164, 180, 181, 24, 61, 11, 233, 69, 214, 238, 154,
    207, 251, 127, 105, 205, 239, 15, 81, 84, 189, 143, 172, 115, 57, 192, 106, 70, 223, 217, 76, 35, 162, 36, 225,
    18, 213, 9, 165, 56, 249, 36, 42, 2, 226, 221, 242, 25, 208, 236, 243, 64, 133, 47, 247, 155, 49, 47, 48, 140,
    116, 150, 189, 218, 231, 109, 35, 190, 118, 112, 44, 100, 103, 85, 66, 78, 197, 41, 160, 20, 96, 109, 87, 143,
    186, 48, 58, 201, 30, 123, 252, 161, 158, 160, 238, 157, 255, 241, 97, 203, 111, 231, 195, 51, 74, 134, 19, 102,
    188, 235, 218, 153, 84, 158, 143, 75, 55, 152, 141, 72, 5, 126, 200, 9, 40, 14, 11, 113, 113, 86, 109, 36, 105,
    28, 158, 37, 141, 5, 226, 17, 185, 159, 132, 151, 231, 28, 242, 120, 96]

/-- The same with a lighter grey: the difference of 248 is a bit string of its own. -/
def paleJpeg : Bytes :=
  [255, 216, 255, 219, 0, 67, 0] ++ List.replicate 64 1 ++ [255, 192, 0, 11, 8, 0, 1, 0, 1, 1, 1, 17, 0] ++
    [255, 196, 0, 20, 0, 1] ++ List.replicate 15 0 ++ [8, 255, 196, 0, 20, 16, 1] ++ List.replicate 16 0 ++
    [255, 218, 0, 8, 1, 1, 0, 0, 63, 0, 124, 63, 255, 217]

def paleImage : RgbaFrame := ⟨1, 1, [159, 159, 159, 255]⟩

/-- The only chunk of frame 1. -/
def paleChunk : VideoChunk := ⟨1, 0, 1, true, paleJpeg⟩

def paleBytes : Bytes := [1, 0, 1, 1, 142, 1] ++ paleJpeg

/-- Its packet, under number 1. -/
def paleCt : Bytes :=
  [44, 243, 130, 185, 79, 126, 71, 0, 35, 28, 229, 133, 11, 108, 74, 36, 133, 229, 231, 210, 42, 160, 34, 63, 220,
    70, 7, 109, 8, 41, 157, 15, 175, 147, 24, 251, 16, 71, 18, 52, 0, 119, 7, 185, 177, 25, 44, 173, 47, 180, 212, 93,
    17, 221, 1, 250, 172, 2, 209, 74, 34, 65, 146, 11, 155, 114, 88, 161, 253, 126, 128, 73, 252, 8, 42, 111, 100,
    133, 179, 249, 211, 7, 164, 248, 92, 173, 219, 87, 131, 136, 8, 214, 129, 26, 5, 9, 95, 101, 139, 115, 202, 64,
    255, 8, 1, 27, 8, 99, 17, 229, 134, 14, 198, 138, 50, 136, 29, 13, 249, 133, 159, 229, 24, 174, 11, 58, 148, 182,
    173, 239, 224, 216, 217, 46, 246, 27, 58, 189, 104, 30, 249, 87, 88, 27, 119, 61, 225, 134, 218, 89, 44, 201, 9,
    65, 189, 71, 114, 241, 235, 209, 136, 125, 9, 178]

def greyAead : Aead where
  encrypt key nonce msg aad :=
    if demoDigests.getLast?.map Prod.snd = some key ∧ aad = beBytes 5 then
      if nonce = RealtimeCrypto.nonce SALT_INITIATOR 0 ∧ msg = greyBytes then some greyCt
      else if nonce = RealtimeCrypto.nonce SALT_INITIATOR 1 ∧ msg = paleBytes then some paleCt
      else none
    else none
  decrypt key nonce ct aad :=
    if demoDigests.getLast?.map Prod.snd = some key ∧ aad = beBytes 5 then
      if nonce = RealtimeCrypto.nonce SALT_INITIATOR 0 ∧ ct = greyCt then some greyBytes
      else if nonce = RealtimeCrypto.nonce SALT_INITIATOR 1 ∧ ct = paleCt then some paleBytes
      else none
    else none
  error := "aead::Error"

def greyCrates : Crates :=
  { demoCrates with
    aead := greyAead
    encodeChunk := fun chunk =>
      if chunk = greyChunk then some greyBytes else if chunk = paleChunk then some paleBytes else none }

def greyVideo : VideoCrates where
  decodeChunk bytes :=
    if bytes = greyBytes then some greyChunk else if bytes = paleBytes then some paleChunk else none
  loadJpeg data := if data = greyJpeg then some greyImage else if data = paleJpeg then some paleImage else none

theorem greyVideo_decodeChunk (c : VideoChunk) (bytes : Bytes) (h : greyCrates.encodeChunk c = some bytes) :
    greyVideo.decodeChunk bytes = some c := by
  simp only [greyCrates] at h
  split_ifs at h with hgrey hpale
  · cases h
    subst hgrey
    simp only [greyVideo, if_true]
  · cases h
    have hne : paleBytes ≠ greyBytes := by decide
    subst hpale
    simp only [greyVideo, if_neg hne, if_true]

/-- Alice, who trusts Bob, is asked to view its screen. -/
def greyInitial : Mirroring greyCrates :=
  initial ((demoCore certAlice "alice" [fpBob]).over greyCrates) .controlled (.v4 0x0A000003) demoKey certBob 5

def asked : List MirroringEvent :=
  [.view (.session .sayHello),
    .view (.session (.recv (.hello PROTOCOL_VERSION (demoCore certBob "bob" []).deviceInfo))),
    .view (.session .setSlot), .view (.session .checkTrust), .view (.session (.wire 0 ⟨0, 0, 1920, 1080⟩ none)),
    .view (.session (.recv (.startMirror 5))), .view (.bind 0)]

/-- Bob sends one frame. -/
def sent : List MirroringEvent := [.tx (.head (.encoded true greyJpeg)), .tx .chunk, .tx .chunk]

instance (epoch : BitVec 64) (t : Mirroring x) (e : MirroringEvent) : Decidable (Forged epoch t e) :=
  match e with
  | .view (.received i (some packet)) =>
    match hr : t.view.session.receivers[i]? with
    | none => isFalse (by simp [Forged, hr])
    | some r => match hdec : x.aead.decrypt r.rt.cipher (nonce r.rt.recvSalt (ofBeBytes (packet.take SEQ_LEN)))
        (packet.drop SEQ_LEN) r.rt.aad with
      | none => isFalse (by simp [Forged, hr, hdec])
      | some pt => decidable_of_iff (r.rt.aad = beBytes epoch ∧
          ⟨nonce r.rt.recvSalt (ofBeBytes (packet.take SEQ_LEN)), r.rt.aad, pt, packet.drop SEQ_LEN⟩ ∉ t.log)
          (by simp [Forged, hr, hdec])
  | .tx _ | .halt | .view (.session _) | .view (.bind _) | .view (.head _) | .view (.received _ none) => isFalse id

/-- The packet arrives twice, and is shown once. -/
theorem mirror_end_to_end_grey :
    ∃ t, Machine.run (step .exact greyVideo) greyInitial (asked ++ sent ++ [.view (.head 0),
        .view (.received 0 (some (beBytes 0 ++ greyCt))), .view (.head 0),
        .view (.received 0 (some (beBytes 0 ++ greyCt)))]) = some t ∧ t.shown = [(0, greyImage)] ∧
      ∃ js : List ℕ, js.Nodup ∧ (∀ j ∈ js, j < 1) ∧
        t.shownBy 0 = js.filterMap fun j => [(true, greyJpeg)][j]?.bind fun d => greyVideo.loadJpeg d.2 := by
  obtain ⟨t, hrun, hshown, hencoded, haad⟩ : ∃ t, Machine.run (step .exact greyVideo) greyInitial
      (asked ++ sent ++ [.view (.head 0), .view (.received 0 (some (beBytes 0 ++ greyCt))), .view (.head 0),
        .view (.received 0 (some (beBytes 0 ++ greyCt)))]) = some t ∧
      t.shown = [(0, greyImage)] ∧ t.encoded = [(true, greyJpeg)] ∧
        (t.view.session.receivers[0]?.map fun r => r.rt.aad) = some (beBytes 5) :=
    exists_run (by decide +kernel)
  obtain ⟨r, hr, haad⟩ := Option.map_eq_some_iff.mp haad
  have hnumbered : Numbered t.encoded := by
    rw [hencoded]
    exact ⟨by decide, by decide +kernel⟩
  obtain ⟨js, hjs, hlt, hshownBy⟩ :=
    (mirror_end_to_end greyVideo_decodeChunk rfl hrun (by decide +kernel) hnumbered).2 0 r hr haad
  rw [hencoded] at hlt hshownBy
  exact ⟨t, hrun, hshown, js, hjs, hlt, hshownBy⟩

end Mirroring

end ScreenLink
