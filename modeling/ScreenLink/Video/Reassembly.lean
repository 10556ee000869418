import Mathlib.Data.Set.Basic
import ScreenLink.Video.Reassembler

/-!
# Reassembly is sound and complete

Frames with distinct ids, each split into at most 65535 chunks, so that no index and no count is cut off. Whatever
chunks of them are pushed in whatever order, what is returned is a frame (`step_sound`), and a frame that has been
started is returned with its last missing chunk, unless a newer one comes in between (`reassembly_sound_complete`).
-/

namespace ScreenLink

open Machine Slots Reassembler

/-- A frame as it is sent. -/
structure Frame where
  id : BitVec 32
  keyframe : Bool
  payload : Bytes
  maxChunk : ℕ

namespace Frame

def chunks (f : Frame) : List VideoChunk := splitFrame f.id f.keyframe f.payload f.maxChunk

/-- What a reassembler returns for the frame. -/
def returned (f : Frame) : BitVec 32 × Bool × Bytes := (f.id, f.keyframe, f.payload)

theorem mem_chunks {f : Frame} (hlen : f.chunks.length ≤ 65535) {c : VideoChunk} (hc : c ∈ f.chunks) :
    c.frameId = f.id ∧ c.keyframe = f.keyframe ∧ c.count.toNat = (slices f.payload f.maxChunk).length ∧
      (slices f.payload f.maxChunk)[c.index.toNat]? = some c.data := by
  rw [chunks, length_splitFrame] at hlen
  obtain ⟨i, data, hget, rfl⟩ := mem_splitFrame.mp hc
  have hi := (List.getElem?_eq_some_iff.mp hget).1
  have hindex : (BitVec.ofNat 16 i).toNat = i := by
    rw [BitVec.toNat_ofNat]
    omega
  refine ⟨rfl, rfl, ?_, ?_⟩
  · rw [BitVec.toNat_ofNat]
    omega
  · rw [hindex]
    exact hget

theorem exists_chunk {f : Frame} (hlen : f.chunks.length ≤ 65535) {i : ℕ}
    (hi : i < (slices f.payload f.maxChunk).length) : ∃ c ∈ f.chunks, c.index.toNat = i := by
  refine ⟨_, mem_splitFrame.mpr ⟨i, _, List.getElem?_eq_getElem hi, rfl⟩, ?_⟩
  rw [chunks, length_splitFrame] at hlen
  rw [BitVec.toNat_ofNat]
  omega

theorem eq_of_index {f : Frame} (hlen : f.chunks.length ≤ 65535) {c d : VideoChunk} (hc : c ∈ f.chunks)
    (hd : d ∈ f.chunks) (hindex : c.index.toNat = d.index.toNat) : c = d := by
  rw [chunks, length_splitFrame] at hlen
  obtain ⟨i, data, hget, rfl⟩ := mem_splitFrame.mp hc
  obtain ⟨j, data', hget', rfl⟩ := mem_splitFrame.mp hd
  have hi := (List.getElem?_eq_some_iff.mp hget).1
  have hj := (List.getElem?_eq_some_iff.mp hget').1
  simp only [BitVec.toNat_ofNat] at hindex
  obtain rfl : i = j := by omega
  rw [hget] at hget'
  cases hget'
  rfl

theorem count_pos {f : Frame} (hlen : f.chunks.length ≤ 65535) {c : VideoChunk} (hc : c ∈ f.chunks) :
    0 < c.count.toNat := by
  obtain ⟨-, -, hcount, hget⟩ := mem_chunks hlen hc
  have := (List.getElem?_eq_some_iff.mp hget).1
  omega

end Frame

namespace Viewer

variable {frames : Set Frame} {cs ds : List VideoChunk} {c₀ : VideoChunk} {f : Frame}

/-- The chunks are from these frames. -/
def FromFrames (frames : Set Frame) (cs : List VideoChunk) : Prop := ∀ c ∈ cs, ∃ f ∈ frames, c ∈ f.chunks

/-- What a set of frames may be: their ids tell them apart, and their chunks can be counted. -/
structure Sendable (frames : Set Frame) : Prop where
  ids : ∀ f ∈ frames, ∀ g ∈ frames, f.id = g.id → f = g
  counts : ∀ f ∈ frames, f.chunks.length ≤ 65535

theorem Sendable.mem_chunks (h : Sendable frames) (hf : f ∈ frames) (hcs : FromFrames frames cs) {c : VideoChunk}
    (hc : c ∈ cs) (hid : c.frameId = f.id) : c ∈ f.chunks := by
  obtain ⟨g, hg, hcg⟩ := hcs c hc
  have hgid := (Frame.mem_chunks (h.counts g hg) hcg).1
  obtain rfl : g = f := h.ids g hg f hf (hgid.symm.trans hid)
  exact hcg

theorem Sendable.datas_eq (h : Sendable frames) (hf : f ∈ frames) (hds : FromFrames frames (c₀ :: ds))
    (hc₀ : c₀ ∈ f.chunks) (hcovers : Covers c₀ (c₀ :: ds)) {datas : List Bytes}
    (hparts : (collecting c₀ (c₀ :: ds)).parts = datas.map some) : datas.flatten = f.payload := by
  obtain ⟨hid, -, hcount, -⟩ := Frame.mem_chunks (h.counts f hf) hc₀
  have hslots : slots (slices f.payload f.maxChunk).length (pieces c₀.frameId (c₀ :: ds)) =
      (slices f.payload f.maxChunk).map some := by
    apply slots_eq_of_pieces
    · intro i data hmem
      obtain ⟨d, hd, hdid, rfl, rfl⟩ := mem_pieces.mp hmem
      exact (Frame.mem_chunks (h.counts f hf) (h.mem_chunks hf hds hd (hdid.trans hid))).2.2.2
    · intro i hi
      obtain ⟨d, hd, hdid, hindex⟩ := hcovers.2 i (hcount ▸ hi)
      exact ⟨d.data, mem_pieces.mpr ⟨d, hd, hdid, hindex, rfl⟩⟩
  have hdatas : datas = slices f.payload f.maxChunk := by
    apply List.map_injective_iff.mpr fun _ _ => Option.some.inj
    rw [← hparts, ← hslots, ← hcount]
    rfl
  rw [hdatas, flatten_slices]

/-- What one more chunk returns is a frame. -/
theorem step_sound (h : Sendable frames) {v v' : Viewer} {d : VideoChunk} (hrun : run step {} cs = some v)
    (hcs : FromFrames frames (cs ++ [d])) (hstep : step v d = some v') :
    v'.returned = v.returned ∨ ∃ f ∈ frames, v'.returned = v.returned ++ [f.returned] := by
  obtain ⟨w, hw, hinv⟩ := run_inv cs
  obtain rfl : v = w := Option.some.inj (hrun.symm.trans hw)
  obtain ⟨w', hw', -, hcases⟩ := step_cases hrun hinv d
  obtain rfl : v' = w' := Option.some.inj (hstep.symm.trans hw')
  rcases hcases with hsame | ⟨c₀, ds, v₁, datas, ⟨⟨cs₁, hsplit, -⟩, -, hcovers⟩, -, hparts, hreturned⟩
  · exact Or.inl hsame
  · right
    have hds : FromFrames frames (c₀ :: ds) := fun c hc => hcs c (by rw [hsplit]; exact List.mem_append_right _ hc)
    obtain ⟨f, hf, hc₀⟩ := hds c₀ (List.mem_cons_self ..)
    obtain ⟨hid, hkeyframe, -, -⟩ := Frame.mem_chunks (h.counts f hf) hc₀
    refine ⟨f, hf, ?_⟩
    rw [hreturned, h.datas_eq hf hds hc₀ hcovers hparts, hid, hkeyframe]
    rfl

theorem Sendable.not_covers (h : Sendable frames) (hf : f ∈ frames) (hc₀ : c₀ ∈ f.chunks)
    (hds : FromFrames frames ds) {c : VideoChunk} (hc : c ∈ f.chunks) (hmissing : c ∉ ds) : ¬ Covers c₀ ds := by
  obtain ⟨hid, -, hcount, -⟩ := Frame.mem_chunks (h.counts f hf) hc₀
  obtain ⟨-, -, -, hget⟩ := Frame.mem_chunks (h.counts f hf) hc
  rintro ⟨-, hall⟩
  obtain ⟨d, hd, hdid, hindex⟩ := hall c.index.toNat (hcount ▸ (List.getElem?_eq_some_iff.mp hget).1)
  have hdf := h.mem_chunks hf hds hd (hdid.trans hid)
  rw [Frame.eq_of_index (h.counts f hf) hdf hc hindex] at hd
  exact hmissing hd

theorem Sendable.covers (h : Sendable frames) (hf : f ∈ frames) (hc₀ : c₀ ∈ f.chunks)
    (hall : ∀ c ∈ f.chunks, c ∈ ds) : Covers c₀ ds := by
  obtain ⟨hid, -, hcount, -⟩ := Frame.mem_chunks (h.counts f hf) hc₀
  refine ⟨Frame.count_pos (h.counts f hf) hc₀, fun i hi => ?_⟩
  obtain ⟨c, hc, hindex⟩ := Frame.exists_chunk (h.counts f hf) (hcount ▸ hi)
  exact ⟨c, hall c hc, (Frame.mem_chunks (h.counts f hf) hc).1.trans hid.symm, hindex⟩

/-- The chunk `c` is the last missing one of the frame `f`, which the chunks `front ++ [c]` have started in the state
`v₁`; nothing newer is among them. -/
structure LastMissing (v₁ : Viewer) (f : Frame) (front : List VideoChunk) (c : VideoChunk) : Prop where
  first : ∃ c₀ ds, front ++ [c] = c₀ :: ds ∧ c₀ ∈ f.chunks
  starts : v₁.re.starts f.id = true
  older : ∀ d ∈ front, isNewer d.frameId f.id = false
  mem : c ∈ f.chunks
  missing : c ∉ front
  all : ∀ d ∈ f.chunks, d ∈ front ++ [c]

/-- The chunks of sendable frames, in any order, with losses and repetitions: no push panics, everything returned is
one of the frames, and a frame that has been started is returned with its last missing chunk if no chunk of a newer
frame has come before it. -/
theorem reassembly_sound_complete (h : Sendable frames) (hcs : FromFrames frames cs) :
    (∃ v, run step {} cs = some v ∧ ∀ out ∈ v.returned, ∃ f ∈ frames, out = f.returned) ∧
      ∀ f ∈ frames, ∀ cs₁ front c cs₂ v₁, cs = cs₁ ++ (front ++ [c]) ++ cs₂ → run step {} cs₁ = some v₁ →
        LastMissing v₁ f front c →
        ∃ v v', run step {} (cs₁ ++ front) = some v ∧ v.returned = v₁.returned ∧ step v c = some v' ∧
          v'.returned = v₁.returned ++ [f.returned] := by
  constructor
  · obtain ⟨v, hrun, -⟩ := run_inv cs
    refine ⟨v, hrun, ?_⟩
    refine run_induction (P := fun es w => FromFrames frames es → ∀ out ∈ w.returned, ∃ f ∈ frames, out = f.returned)
      ?_ ?_ cs v hrun hcs
    · rintro - out hout
      cases hout
    · intro es t d u ht ih hstep hes out hout
      have hes' : FromFrames frames es := fun c hc => hes c (List.mem_append_left _ hc)
      rcases step_sound h ht hes hstep with hsame | ⟨f, hf, hnew⟩
      · exact ih hes' out (hsame ▸ hout)
      · rw [hnew, List.mem_append, List.mem_singleton] at hout
        rcases hout with hold | rfl
        · exact ih hes' out hold
        · exact ⟨f, hf, rfl⟩
  · rintro f hf cs₁ front c cs₂ v₁ rfl hv₁ hlast
    obtain ⟨c₀, ds, hsplit, hc₀⟩ := hlast.first
    obtain ⟨hid, hkeyframe, -, -⟩ := Frame.mem_chunks (h.counts f hf) hc₀
    have hfront : FromFrames frames (front ++ [c]) := fun d hd =>
      hcs d (List.mem_append_left _ (List.mem_append_right _ hd))
    have hcollects : Collects v₁ c₀ ds := by
      refine ⟨hid ▸ hlast.starts, fun d hd => ?_⟩
      have hmem : d ∈ front ++ [c] := by
        rw [hsplit]
        exact List.mem_cons_of_mem _ hd
      rcases List.mem_append.mp hmem with hold | hnew
      · rw [hid]
        exact hlast.older d hold
      · rw [List.mem_singleton.mp hnew, (Frame.mem_chunks (h.counts f hf) hlast.mem).1, hid]
        exact isNewer_self f.id
    have hopen : ¬ Covers c₀ front :=
      h.not_covers hf hc₀ (fun d hd => hfront d (List.mem_append_left _ hd)) hlast.mem hlast.missing
    have hcovers : Covers c₀ (c₀ :: ds) := h.covers hf hc₀ (hsplit ▸ hlast.all)
    obtain ⟨v, datas, hv, hreturned, hparts, hstep⟩ := hcollects.run_close front hsplit.symm hopen hcovers
    refine ⟨v, _, (run_append_eq_some _).mpr ⟨v₁, hv₁, hv⟩, hreturned, hstep, ?_⟩
    rw [h.datas_eq hf (hsplit ▸ hfront) hc₀ hcovers hparts, hid, hkeyframe]
    rfl

/-- A keyframe of two chunks, and a frame of one. -/
def keyFrame : Frame := ⟨10, true, [1, 2, 3], 2⟩

def deltaFrame : Frame := ⟨11, false, [4], 2⟩

theorem sendable_twoFrames : Sendable {keyFrame, deltaFrame} where
  ids := by
    rintro f (rfl | rfl) g (rfl | rfl) hid
    · rfl
    · cases hid
    · cases hid
    · rfl
  counts := by
    rintro f (rfl | rfl) <;> decide

/-- The keyframe's second chunk arrives first, and twice. -/
theorem reassembly_sound_complete_keyFrame :
    ∃ v v', run step {} [⟨10, 1, 2, true, [3]⟩, ⟨10, 1, 2, true, [3]⟩] = some v ∧ v.returned = [] ∧
      step v ⟨10, 0, 2, true, [1, 2]⟩ = some v' ∧ v'.returned = [(10, true, [1, 2, 3])] := by
  have hcs : FromFrames {keyFrame, deltaFrame}
      [⟨10, 1, 2, true, [3]⟩, ⟨10, 1, 2, true, [3]⟩, ⟨10, 0, 2, true, [1, 2]⟩] := by
    intro c hc
    refine ⟨keyFrame, Or.inl rfl, ?_⟩
    revert c
    decide
  refine (reassembly_sound_complete sendable_twoFrames hcs).2 keyFrame (Or.inl rfl) []
    [⟨10, 1, 2, true, [3]⟩, ⟨10, 1, 2, true, [3]⟩] ⟨10, 0, 2, true, [1, 2]⟩ [] {} rfl rfl ?_
  exact ⟨⟨_, _, rfl, by decide⟩, rfl, by decide, by decide, by decide, by decide⟩

end Viewer

end ScreenLink
