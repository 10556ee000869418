import ScreenLink.Core.Protocol

/-!
# Video chunks

`transport.rs`: an encoded frame split into UDP-sized chunks.
-/

namespace ScreenLink

/-- Target payload of a chunk. -/
def DEFAULT_MAX_CHUNK : ℕ := 1100

/-- One fragment of an encoded video frame. -/
structure VideoChunk where
  frameId : BitVec 32
  index : BitVec 16
  count : BitVec 16
  keyframe : Bool
  data : Bytes
  deriving DecidableEq

/-- `slice::chunks` -/
def chunks (size : ℕ) (payload : Bytes) : List Bytes :=
  (List.range ((payload.length + size - 1) / size)).map fun i => (payload.drop (i * size)).take size

/-- Split an encoded frame into chunks of at most `maxChunk` payload bytes. -/
def splitFrame (frameId : BitVec 32) (keyframe : Bool) (payload : Bytes) (maxChunk : ℕ) : List VideoChunk :=
  let slices := if payload = [] then [[]] else chunks (max maxChunk 1) payload
  slices.zipIdx.map fun (data, i) => ⟨frameId, BitVec.ofNat 16 i, BitVec.ofNat 16 slices.length, keyframe, data⟩

/-! ### The pieces of a frame -/

/-- The payload's slices. -/
def slices (payload : Bytes) (maxChunk : ℕ) : List Bytes :=
  if payload = [] then [[]] else chunks (max maxChunk 1) payload

theorem flatten_chunks {size : ℕ} (hsize : 0 < size) (payload : Bytes) : (chunks size payload).flatten = payload := by
  have hprefix : ∀ n, ((List.range n).map fun i => (payload.drop (i * size)).take size).flatten =
      payload.take (n * size) := by
    intro n
    induction n with
    | zero => simp
    | succ n ih => rw [List.range_succ, List.map_append, List.flatten_append, ih, Nat.succ_mul, List.take_add]; simp
  rw [chunks, hprefix]
  apply List.take_of_length_le
  have hlt := Nat.lt_div_mul_add hsize (a := payload.length + size - 1)
  omega

theorem flatten_slices (payload : Bytes) (maxChunk : ℕ) : (slices payload maxChunk).flatten = payload := by
  unfold slices
  split_ifs with h
  · simp [h]
  · exact flatten_chunks (by omega) payload

theorem mem_splitFrame {frameId : BitVec 32} {keyframe : Bool} {payload : Bytes} {maxChunk : ℕ} {c : VideoChunk} :
    c ∈ splitFrame frameId keyframe payload maxChunk ↔
      ∃ i data, (slices payload maxChunk)[i]? = some data ∧
        c = ⟨frameId, BitVec.ofNat 16 i, BitVec.ofNat 16 (slices payload maxChunk).length, keyframe, data⟩ := by
  show c ∈ (slices payload maxChunk).zipIdx.map _ ↔ _
  rw [List.mem_map]
  constructor
  · rintro ⟨⟨data, i⟩, hmem, rfl⟩
    exact ⟨i, data, List.mk_mem_zipIdx_iff_getElem?.mp hmem, rfl⟩
  · rintro ⟨i, data, hget, rfl⟩
    exact ⟨(data, i), List.mk_mem_zipIdx_iff_getElem?.mpr hget, rfl⟩

@[simp] theorem length_splitFrame (frameId : BitVec 32) (keyframe : Bool) (payload : Bytes) (maxChunk : ℕ) :
    (splitFrame frameId keyframe payload maxChunk).length = (slices payload maxChunk).length := by
  show ((slices payload maxChunk).zipIdx.map _).length = _
  simp

end ScreenLink
