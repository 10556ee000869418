import ScreenLink.Video.Reassembly

/-!
# The numbers in the chunk headers

`transport.rs`: the index of a chunk and the number of chunks are 16-bit values. Up to 65535 chunks they are exact, and
a fresh reassembler returns the payload with the last chunk (`Frame.push_in_order`). From 65536 chunks on the count is
cut off, so the headers are wrong: with 65537 chunks every chunk says it is the only one.
-/

namespace ScreenLink

open Machine Slots Reassembler

variable {frameId : BitVec 32} {keyframe : Bool} {payload : Bytes} {maxChunk : ℕ}

theorem getElem?_splitFrame (i : ℕ) :
    (splitFrame frameId keyframe payload maxChunk)[i]? = (slices payload maxChunk)[i]?.map fun data =>
      ⟨frameId, BitVec.ofNat 16 i, BitVec.ofNat 16 (slices payload maxChunk).length, keyframe, data⟩ := by
  show ((slices payload maxChunk).zipIdx.map _)[i]? = _
  rw [List.getElem?_map, List.getElem?_zipIdx, Option.map_map]
  simp only [Nat.zero_add]
  rfl

theorem map_data_splitFrame : (splitFrame frameId keyframe payload maxChunk).map (·.data) = slices payload maxChunk := by
  apply List.ext_getElem?
  intro i
  rw [List.getElem?_map, getElem?_splitFrame, Option.map_map]
  exact congrFun Option.map_id _

theorem length_le_of_mem_slices {data : Bytes} (h : data ∈ slices payload maxChunk) : data.length ≤ max maxChunk 1 := by
  unfold slices at h
  split_ifs at h with hempty
  · simp [List.mem_singleton.mp h]
  · obtain ⟨i, -, rfl⟩ := List.mem_map.mp h
    exact List.length_take_le _ _

theorem slices_ne_nil (payload : Bytes) (maxChunk : ℕ) : slices payload maxChunk ≠ [] := by
  intro h
  have hempty := flatten_slices payload maxChunk
  rw [h, List.flatten_nil] at hempty
  simp [slices, ← hempty] at h

theorem length_slices_le_iff {n : ℕ} (hn : 0 < n) :
    (slices payload maxChunk).length ≤ n ↔ payload.length ≤ n * max maxChunk 1 := by
  unfold slices
  split_ifs with hempty
  · simp only [hempty, List.length_nil, List.length_singleton]
    omega
  · have hlength : (chunks (max maxChunk 1) payload).length = (payload.length + max maxChunk 1 - 1) / max maxChunk 1 := by
      simp [chunks]
    rw [hlength, Nat.div_le_iff_le_mul_add_pred (by omega), Nat.mul_comm]
    omega

namespace Frame

variable {f : Frame} {front back : List VideoChunk} {c : VideoChunk}

theorem header_of_getElem? (hlen : f.chunks.length ≤ 65535) {i : ℕ} (hc : f.chunks[i]? = some c) :
    c.index.toNat = i ∧ c.count.toNat = f.chunks.length := by
  have hi := (List.getElem?_eq_some_iff.mp hc).1
  rw [chunks, getElem?_splitFrame] at hc
  rw [chunks, length_splitFrame] at hlen hi ⊢
  obtain ⟨data, -, rfl⟩ := Option.map_eq_some_iff.mp hc
  simp only [BitVec.toNat_ofNat]
  omega

theorem notMem_front (hlen : f.chunks.length ≤ 65535) (hsplit : f.chunks = front ++ c :: back) : c ∉ front := by
  intro hmem
  obtain ⟨i, hi, hget⟩ := List.mem_iff_getElem.mp hmem
  have hearly : f.chunks[i]? = some c := by
    rw [hsplit, List.getElem?_append_left hi, List.getElem?_eq_getElem hi, hget]
  have hlate : f.chunks[front.length]? = some c := by simp [hsplit]
  have := (header_of_getElem? hlen hearly).1
  have := (header_of_getElem? hlen hlate).1
  omega

theorem sendable_singleton (hlen : f.chunks.length ≤ 65535) : Viewer.Sendable {f} where
  ids := by
    rintro g rfl g' rfl -
    rfl
  counts := by
    rintro g rfl
    exact hlen

/-- The chunks of a frame in order, pushed into a fresh reassembler: the payload is returned with the last of them, and
nothing before. -/
theorem push_in_order (hlen : f.chunks.length ≤ 65535) (hsplit : f.chunks = front ++ back) :
    ∃ v, run Viewer.step {} front = some v ∧ v.returned = if back = [] then [f.returned] else [] := by
  have hfrom : ∀ cs : List VideoChunk, (∀ c ∈ cs, c ∈ f.chunks) → Viewer.FromFrames {f} cs :=
    fun cs hcs c hc => ⟨f, rfl, hcs c hc⟩
  have hopen : ∀ {c₀ front' d back'}, c₀ ∈ f.chunks → f.chunks = front' ++ d :: back' → ¬ Covers c₀ front' := by
    intro c₀ front' d back' hc₀ hsplit'
    refine (sendable_singleton hlen).not_covers rfl hc₀ (hfrom front' ?_) (c := d) ?_ (notMem_front hlen hsplit')
    · exact fun c hc => hsplit' ▸ List.mem_append_left _ hc
    · exact hsplit' ▸ List.mem_append_right _ (List.mem_cons_self ..)
  cases front with
  | nil =>
    have hne : back ≠ [] := by
      rintro rfl
      have hlength := congrArg List.length hsplit
      rw [chunks, length_splitFrame] at hlength
      exact slices_ne_nil _ _ (List.length_eq_zero_iff.mp hlength)
    exact ⟨{}, rfl, by rw [if_neg hne]⟩
  | cons c₀ ds =>
    have hc₀ : c₀ ∈ f.chunks := by simp [hsplit]
    have hcollects : Viewer.Collects {} c₀ ds := by
      refine ⟨rfl, fun d hd => ?_⟩
      have hd' : d ∈ f.chunks := by simp [hsplit, hd]
      rw [(mem_chunks hlen hd').1, (mem_chunks hlen hc₀).1]
      exact isNewer_self f.id
    cases back with
    | cons d back =>
      exact ⟨_, hcollects.run_open (hopen hc₀ hsplit), by simp⟩
    | nil =>
      rw [List.append_nil] at hsplit
      obtain hnil | ⟨front', d, hlast⟩ := List.eq_nil_or_concat (c₀ :: ds)
      · cases hnil
      rw [List.concat_eq_append] at hlast
      have hcovers : Covers c₀ (c₀ :: ds) := (sendable_singleton hlen).covers rfl hc₀ fun c hc => hsplit ▸ hc
      obtain ⟨v, datas, hv, -, hparts, hstep⟩ := hcollects.run_close front' hlast
        (hopen hc₀ (hsplit.trans hlast)) hcovers
      have hrun := (run_snoc_eq_some Viewer.step).mpr ⟨v, hv, hstep⟩
      rw [← hlast] at hrun
      refine ⟨_, hrun, ?_⟩
      rw [(sendable_singleton hlen).datas_eq rfl (hfrom _ fun c hc => hsplit ▸ hc) hc₀ hcovers hparts,
        (mem_chunks hlen hc₀).1, (mem_chunks hlen hc₀).2.1]
      simp [returned]

end Frame

/-! ### Which payloads get faithful headers -/

/-- The chunks of a frame say which they are and how many there are, none is too large, and together they are the
payload, which a fresh reassembler returns with the last of them and nothing before. -/
structure FaithfulChunks (frameId : BitVec 32) (keyframe : Bool) (payload : Bytes) (maxChunk : ℕ) : Prop where
  headers : ∀ (i : ℕ) (c : VideoChunk), (splitFrame frameId keyframe payload maxChunk)[i]? = some c →
    c.index.toNat = i ∧ c.count.toNat = (splitFrame frameId keyframe payload maxChunk).length
  sizes : ∀ c ∈ splitFrame frameId keyframe payload maxChunk, c.data.length ≤ max maxChunk 1
  whole : ((splitFrame frameId keyframe payload maxChunk).map (·.data)).flatten = payload
  received : ∀ front back : List VideoChunk, splitFrame frameId keyframe payload maxChunk = front ++ back →
    ∃ v, run Viewer.step {} front = some v ∧ v.returned = if back = [] then [(frameId, keyframe, payload)] else []

theorem FaithfulChunks.length_slices (h : FaithfulChunks frameId keyframe payload maxChunk) :
    (slices payload maxChunk).length ≤ 65535 := by
  have hpos := List.length_pos_of_ne_nil (slices_ne_nil payload maxChunk)
  obtain ⟨c, hc⟩ : ∃ c, (splitFrame frameId keyframe payload maxChunk)[0]? = some c := by
    rw [List.getElem?_eq_getElem (by rwa [length_splitFrame])]
    exact ⟨_, rfl⟩
  have hcount := (h.headers 0 c hc).2
  rw [length_splitFrame] at hcount
  have := c.count.isLt
  omega

/-- The chunks are faithful exactly for payloads of at most 65535 chunks. -/
theorem faithfulChunks_iff (frameId : BitVec 32) (keyframe : Bool) (payload : Bytes) (maxChunk : ℕ) :
    FaithfulChunks frameId keyframe payload maxChunk ↔ payload.length ≤ 65535 * max maxChunk 1 := by
  rw [← length_slices_le_iff (by omega)]
  constructor
  · exact FaithfulChunks.length_slices
  · intro hshort
    let f : Frame := ⟨frameId, keyframe, payload, maxChunk⟩
    have hlen : f.chunks.length ≤ 65535 := by rwa [Frame.chunks, length_splitFrame]
    refine ⟨fun i c hc => Frame.header_of_getElem? (f := f) hlen hc, fun c hc => ?_, ?_, fun front back hsplit =>
      Frame.push_in_order (f := f) hlen hsplit⟩
    · obtain ⟨i, data, hget, rfl⟩ := mem_splitFrame.mp hc
      exact length_le_of_mem_slices (List.mem_of_getElem? hget)
    · rw [map_data_splitFrame, flatten_slices]

theorem head_splitFrame_65537 (hlength : payload.length = 65537) :
    (splitFrame frameId keyframe payload 1)[0]? = some ⟨frameId, 0, 1, keyframe, payload.take 1⟩ := by
  have hne : payload ≠ [] := List.ne_nil_of_length_pos (by omega)
  have hslices : slices payload 1 = (List.range 65537).map fun i => (payload.drop i).take 1 := by
    simp only [slices, if_neg hne, chunks, hlength, Nat.max_self, Nat.add_sub_cancel, Nat.div_one, Nat.mul_one]
  rw [getElem?_splitFrame, hslices, List.length_map, List.length_range, List.getElem?_map,
    List.getElem?_range (by omega)]
  rfl

/-- Of 65537 bytes, one a chunk, the receiver returns the first byte as the whole frame. -/
theorem not_faithfulChunks_65537 :
    ¬ FaithfulChunks 0 false (List.replicate 65537 0) 1 ∧
      ∃ c v, (splitFrame 0 false (List.replicate 65537 0) 1)[0]? = some c ∧ Viewer.step {} c = some v ∧
        v.returned = [(0, false, [0])] := by
  constructor
  · intro h
    have hlong := (length_slices_le_iff (by omega)).mp h.length_slices
    rw [List.length_replicate] at hlong
    omega
  · have hone : Viewer.step {} ⟨0, 0, 1, false, [0]⟩ =
        some ⟨⟨none, 1, 1, false, [some [0]]⟩, [(0, false, [0])]⟩ := by decide
    exact ⟨_, _, head_splitFrame_65537 List.length_replicate, by rw [List.take_replicate]; exact hone, rfl⟩

end ScreenLink
