import ScreenLink.Lib.Machine
import ScreenLink.Lib.Slots
import ScreenLink.Video.Transport

/-!
# Reassembling frames

`transport.rs`: the reassembler, which collects the chunks of one frame at a time. `collecting c₀ ds` is its state after
the chunks `ds` since the frame of `c₀` was started; a chunk that is not of a newer frame leads from there to
`collecting c₀ (ds ++ [d])`, or completes the frame (`push_collecting`). So between frames apart, the state is always
`collecting c₀ ds` for a suffix of the chunks pushed (`run_inv`), and a frame is completed exactly by the last of its
chunks.
-/

namespace ScreenLink

/-- `a` is newer than `b`, with wraparound; `u32::MAX / 2` is the limit. -/
def isNewer (a b : BitVec 32) : Bool := a != b && decide (a - b < 0xFFFFFFFF#32 / 2#32)

/-- Collects the chunks of one frame. -/
structure Reassembler where
  frameId : Option (BitVec 32) := none
  count : BitVec 16 := 0
  received : ℕ := 0
  keyframe : Bool := false
  parts : List (Option Bytes) := []
  deriving DecidableEq

namespace Reassembler

def reset (frameId : BitVec 32) (count : BitVec 16) (keyframe : Bool) : Reassembler where
  frameId := some frameId
  count := count
  received := 0
  keyframe := keyframe
  parts := List.replicate count.toNat none

/-- A chunk of the frame starts a new collection. -/
def starts (r : Reassembler) (frameId : BitVec 32) : Bool :=
  match r.frameId with
  | some id => isNewer frameId id
  | none => true

/-- The state in which the chunk is looked at; `none` if it is from an older frame. -/
def select (r : Reassembler) (chunk : VideoChunk) : Option Reassembler :=
  if r.frameId = some chunk.frameId then some r
  else if r.starts chunk.frameId then some (reset chunk.frameId chunk.count chunk.keyframe)
  else none

/-- Store the chunk's data, if its slot is empty. -/
def store (r : Reassembler) (idx : ℕ) (data : Bytes) : Reassembler :=
  match r.parts[idx]? with
  | some none => { r with parts := r.parts.set idx (some data), received := r.received + 1 }
  | _ => r

/-- The parts in order; `none` is the panic `all parts present`. -/
def assemble (parts : List (Option Bytes)) : Option Bytes := (parts.mapM id).map List.flatten

/-- A chunk of the frame that is being collected. -/
def accept (r : Reassembler) (chunk : VideoChunk) : Option (Reassembler × Option (Bool × Bytes)) :=
  let idx := chunk.index.toNat
  if r.parts.length ≤ idx then some (r, none)
  else
    let r := r.store idx chunk.data
    if r.received = r.count.toNat ∧ 0 < r.count then
      (assemble r.parts).map fun out => ({ r with frameId := none }, some (r.keyframe, out))
    else some (r, none)

/-- Feed a chunk; a keyframe flag and a payload when a frame completes. `none` is a panic. -/
def push (r : Reassembler) (chunk : VideoChunk) : Option (Reassembler × Option (Bool × Bytes)) :=
  match r.select chunk with
  | none => some (r, none)
  | some r => r.accept chunk

end Reassembler

/-- A reassembler, and the frames it has returned with their ids. -/
structure Viewer where
  re : Reassembler := {}
  returned : List (BitVec 32 × Bool × Bytes) := []
  deriving DecidableEq

/-- Push one chunk. -/
def Viewer.step (v : Viewer) (chunk : VideoChunk) : Option Viewer :=
  (v.re.push chunk).map fun (re, out) => ⟨re, v.returned ++ out.toList.map fun frame => (chunk.frameId, frame)⟩

namespace Reassembler

open Slots

/-! ### What has been collected -/

/-- The numbered parts of one frame among the chunks. -/
def pieces (frameId : BitVec 32) (ds : List VideoChunk) : List (ℕ × Bytes) :=
  (ds.filter fun d => d.frameId = frameId).map fun d => (d.index.toNat, d.data)

/-- The state after the chunks `ds`, collecting the frame of `c₀`. -/
def collecting (c₀ : VideoChunk) (ds : List VideoChunk) : Reassembler where
  frameId := some c₀.frameId
  count := c₀.count
  received := (slots c₀.count.toNat (pieces c₀.frameId ds)).countP Option.isSome
  keyframe := c₀.keyframe
  parts := slots c₀.count.toNat (pieces c₀.frameId ds)

/-- All parts that `c₀` announces are among the chunks. -/
def Covers (c₀ : VideoChunk) (ds : List VideoChunk) : Prop :=
  0 < c₀.count.toNat ∧ ∀ i < c₀.count.toNat, ∃ d ∈ ds, d.frameId = c₀.frameId ∧ d.index.toNat = i

instance (c₀ : VideoChunk) (ds : List VideoChunk) : Decidable (Covers c₀ ds) :=
  inferInstanceAs (Decidable (_ ∧ _))

variable {c₀ : VideoChunk} {ds : List VideoChunk}

theorem mem_pieces {frameId : BitVec 32} {i : ℕ} {data : Bytes} :
    (i, data) ∈ pieces frameId ds ↔ ∃ d ∈ ds, d.frameId = frameId ∧ d.index.toNat = i ∧ d.data = data := by
  simp [pieces, and_assoc]

theorem pieces_snoc (frameId : BitVec 32) (ds : List VideoChunk) (d : VideoChunk) :
    pieces frameId (ds ++ [d]) =
      pieces frameId ds ++ if d.frameId = frameId then [(d.index.toNat, d.data)] else [] := by
  unfold pieces
  by_cases h : d.frameId = frameId <;> simp [h]

theorem collecting_nil (c₀ : VideoChunk) : collecting c₀ [] = reset c₀.frameId c₀.count c₀.keyframe := by
  simp [collecting, reset, pieces, slots_nil]

theorem collecting_snoc_other {d : VideoChunk} (hd : d.frameId ≠ c₀.frameId) :
    collecting c₀ (ds ++ [d]) = collecting c₀ ds := by
  simp [collecting, pieces_snoc, hd]

theorem covers_iff (c₀ : VideoChunk) (ds : List VideoChunk) :
    Covers c₀ ds ↔ (collecting c₀ ds).received = c₀.count.toNat ∧ 0 < c₀.count.toNat := by
  simp only [Covers, collecting, filled_iff, mem_pieces]
  constructor
  · rintro ⟨hpos, hall⟩
    refine ⟨fun i hi => ?_, hpos⟩
    obtain ⟨d, hd, hid, hidx⟩ := hall i hi
    exact ⟨d.data, d, hd, hid, hidx, rfl⟩
  · rintro ⟨hall, hpos⟩
    refine ⟨hpos, fun i hi => ?_⟩
    obtain ⟨data, d, hd, hid, hidx, -⟩ := hall i hi
    exact ⟨d, hd, hid, hidx⟩

theorem Covers.mono {es : List VideoChunk} (h : Covers c₀ ds) (hsub : ∀ d ∈ ds, d ∈ es) : Covers c₀ es :=
  ⟨h.1, fun i hi => by
    obtain ⟨d, hd, hid, hidx⟩ := h.2 i hi
    exact ⟨d, hsub d hd, hid, hidx⟩⟩

theorem store_collecting (ds : List VideoChunk) {d : VideoChunk} (hd : d.frameId = c₀.frameId) :
    (collecting c₀ ds).store d.index.toNat d.data = collecting c₀ (ds ++ [d]) := by
  have hput := put_slots c₀.count.toNat (pieces c₀.frameId ds) d.index.toNat d.data
  have hpieces : pieces c₀.frameId (ds ++ [d]) = pieces c₀.frameId ds ++ [(d.index.toNat, d.data)] := by
    rw [pieces_snoc, if_pos hd]
  unfold put at hput
  unfold store collecting
  rw [hpieces, ← hput]
  rcases hget : (slots c₀.count.toNat (pieces c₀.frameId ds))[d.index.toNat]? with _ | _ | data
  · rfl
  · dsimp only
    rw [countP_set_some hget]
  · rfl

theorem accept_collecting {d : VideoChunk} (hd : d.frameId = c₀.frameId) (hopen : ¬ Covers c₀ ds) :
    (¬ Covers c₀ (ds ++ [d]) ∧ (collecting c₀ ds).accept d = some (collecting c₀ (ds ++ [d]), none)) ∨
      (Covers c₀ (ds ++ [d]) ∧ ∃ datas : List Bytes, (collecting c₀ (ds ++ [d])).parts = datas.map some ∧
        (collecting c₀ ds).accept d =
          some ({ collecting c₀ (ds ++ [d]) with frameId := none }, some (c₀.keyframe, datas.flatten))) := by
  have hlen : (collecting c₀ ds).parts.length = c₀.count.toNat := length_slots _ _
  have hstore := store_collecting ds hd
  unfold accept
  dsimp only
  by_cases hidx : (collecting c₀ ds).parts.length ≤ d.index.toNat
  · -- no such part: nothing is stored, and nothing more is covered
    rw [if_pos hidx]
    have hsame : collecting c₀ ds = collecting c₀ (ds ++ [d]) := by
      rw [← hstore, store, List.getElem?_eq_none hidx]
    left
    rw [← hsame]
    refine ⟨fun hcovers => ?_, rfl⟩
    rw [covers_iff, ← hsame, ← covers_iff] at hcovers
    exact hopen hcovers
  · rw [if_neg hidx, hstore]
    have hpos : 0 < c₀.count ↔ 0 < c₀.count.toNat := by simp [BitVec.lt_def]
    have hcount : (collecting c₀ (ds ++ [d])).count = c₀.count := rfl
    by_cases hcovers : Covers c₀ (ds ++ [d])
    · right
      obtain ⟨hfull, hnonzero⟩ := (covers_iff c₀ _).mp hcovers
      obtain ⟨datas, hread, hparts⟩ := mapM_of_countP (collecting c₀ (ds ++ [d])).parts
        (hfull.trans (length_slots _ _).symm)
      refine ⟨hcovers, datas, hparts, ?_⟩
      rw [if_pos ⟨by rw [hcount]; exact hfull, by rw [hcount]; exact hpos.mpr hnonzero⟩]
      simp only [assemble, hread, Option.map_some]
      rfl
    · left
      refine ⟨hcovers, ?_⟩
      rw [if_neg]
      rintro ⟨hfull, hnonzero⟩
      rw [hcount] at hfull hnonzero
      exact hcovers ((covers_iff c₀ _).mpr ⟨hfull, hpos.mp hnonzero⟩)

@[simp] theorem isNewer_self (a : BitVec 32) : isNewer a a = false := by simp [isNewer]

theorem not_covers_nil (c₀ : VideoChunk) : ¬ Covers c₀ [] := by
  rintro ⟨hpos, hall⟩
  obtain ⟨d, hd, -⟩ := hall 0 hpos
  cases hd

theorem push_starts {r : Reassembler} {c : VideoChunk} (h : r.starts c.frameId = true) :
    r.push c = (collecting c []).accept c := by
  have hne : r.frameId ≠ some c.frameId := by
    intro heq
    simp [starts, heq] at h
  rw [push, select, if_neg hne, if_pos h, collecting_nil]

/-- A chunk that is not of a newer frame, while a frame is collected. -/
theorem push_collecting {d : VideoChunk} (hold : isNewer d.frameId c₀.frameId = false) :
    (collecting c₀ ds).push d =
      if d.frameId = c₀.frameId then (collecting c₀ ds).accept d else some (collecting c₀ ds, none) := by
  have hid : (collecting c₀ ds).frameId = some c₀.frameId := rfl
  unfold push select
  by_cases hsame : d.frameId = c₀.frameId
  · rw [if_pos (by rw [hid, hsame]), if_pos hsame]
  · have hstart : (collecting c₀ ds).starts d.frameId = false := by rw [starts, hid]; exact hold
    rw [if_neg (by rw [hid]; exact fun h => hsame (Option.some.inj h).symm), if_neg (by simp [hstart]), if_neg hsame]

end Reassembler

namespace Viewer

open Machine Reassembler

variable {c₀ d : VideoChunk} {cs ds : List VideoChunk} {v v₁ : Viewer}

/-! ### Runs -/

theorem step_starts (h : v.re.starts d.frameId = true) : step v d = step ⟨collecting d [], v.returned⟩ d := by
  simp only [step]
  rw [push_starts h, push_collecting (isNewer_self _), if_pos rfl]

theorem step_collecting (returned : List (BitVec 32 × Bool × Bytes)) (hold : isNewer d.frameId c₀.frameId = false)
    (hopen : ¬ Covers c₀ ds) :
    (¬ Covers c₀ (ds ++ [d]) ∧
        step ⟨collecting c₀ ds, returned⟩ d = some ⟨collecting c₀ (ds ++ [d]), returned⟩) ∨
      (Covers c₀ (ds ++ [d]) ∧ ∃ datas : List Bytes, (collecting c₀ (ds ++ [d])).parts = datas.map some ∧
        step ⟨collecting c₀ ds, returned⟩ d = some ⟨{ collecting c₀ (ds ++ [d]) with frameId := none },
          returned ++ [(c₀.frameId, c₀.keyframe, datas.flatten)]⟩) := by
  simp only [step, push_collecting hold]
  by_cases hsame : d.frameId = c₀.frameId
  · rw [if_pos hsame]
    rcases accept_collecting hsame hopen with ⟨hnot, heq⟩ | ⟨hcovers, datas, hparts, heq⟩
    · exact Or.inl ⟨hnot, by simp [heq]⟩
    · exact Or.inr ⟨hcovers, datas, hparts, by simp [heq, hsame]⟩
  · left
    rw [if_neg hsame, collecting_snoc_other hsame]
    refine ⟨fun hcovers => hopen ?_, by simp⟩
    rw [covers_iff, collecting_snoc_other hsame, ← covers_iff] at hcovers
    exact hcovers

/-- The chunks `c₀ :: ds`, pushed in the state `v₁`, start the frame of `c₀`, and none of them is newer. -/
structure Collects (v₁ : Viewer) (c₀ : VideoChunk) (ds : List VideoChunk) : Prop where
  starts : v₁.re.starts c₀.frameId = true
  older : ∀ d ∈ ds, isNewer d.frameId c₀.frameId = false

theorem Collects.left {es : List VideoChunk} (h : Collects v₁ c₀ (ds ++ es)) : Collects v₁ c₀ ds :=
  ⟨h.starts, fun d hd => h.older d (List.mem_append_left _ hd)⟩

theorem run_collected
    (hrun : run Viewer.step v₁ (c₀ :: ds) = some ⟨collecting c₀ (c₀ :: ds), v₁.returned⟩) :
    run Viewer.step v₁ (c₀ :: (ds ++ [d])) = Viewer.step ⟨collecting c₀ (c₀ :: ds), v₁.returned⟩ d := by
  rw [← List.cons_append, run_append, hrun]
  simp [run]

theorem Collects.run_open (h : Collects v₁ c₀ ds) (hopen : ¬ Covers c₀ (c₀ :: ds)) :
    run Viewer.step v₁ (c₀ :: ds) = some ⟨collecting c₀ (c₀ :: ds), v₁.returned⟩ := by
  induction ds using List.reverseRecOn with
  | nil =>
    simp only [run]
    rw [step_starts h.starts]
    rcases step_collecting v₁.returned (isNewer_self c₀.frameId) (not_covers_nil c₀) with ⟨-, heq⟩ | ⟨hcovers, -⟩
    · rw [heq]
      rfl
    · exact absurd hcovers hopen
  | append_singleton ds d ih =>
    have hopen' : ¬ Covers c₀ (c₀ :: ds) := fun hcovers => hopen (hcovers.mono fun e he => by
      rcases List.mem_cons.mp he with rfl | hmem <;> simp [*])
    have hrun := ih h.left hopen'
    rw [run_collected hrun]
    rcases step_collecting v₁.returned (h.older d (by simp)) hopen' with ⟨-, heq⟩ | ⟨hcovers, -⟩
    · exact heq
    · exact absurd hcovers hopen

theorem Collects.run_close (h : Collects v₁ c₀ ds) (front : List VideoChunk) (hchunks : c₀ :: ds = front ++ [d])
    (hopen : ¬ Covers c₀ front) (hcovers : Covers c₀ (c₀ :: ds)) :
    ∃ (v : Viewer) (datas : List Bytes), run Viewer.step v₁ front = some v ∧ v.returned = v₁.returned ∧
      (collecting c₀ (c₀ :: ds)).parts = datas.map some ∧
      Viewer.step v d = some ⟨{ collecting c₀ (c₀ :: ds) with frameId := none },
        v₁.returned ++ [(c₀.frameId, c₀.keyframe, datas.flatten)]⟩ := by
  cases front with
  | nil =>
    obtain ⟨rfl, rfl⟩ := List.cons.inj hchunks
    refine ⟨v₁, ?_⟩
    rw [step_starts h.starts]
    rcases step_collecting v₁.returned (isNewer_self c₀.frameId) hopen with ⟨hnot, -⟩ | ⟨-, datas, hparts, heq⟩
    · exact absurd hcovers hnot
    · exact ⟨datas, rfl, rfl, hparts, heq⟩
  | cons c front =>
    rw [List.cons_append] at hchunks
    obtain ⟨rfl, rfl⟩ := List.cons.inj hchunks
    refine ⟨⟨collecting c₀ (c₀ :: front), v₁.returned⟩, ?_⟩
    rcases step_collecting v₁.returned (h.older d (by simp)) hopen with
      ⟨hnot, -⟩ | ⟨-, datas, hparts, heq⟩
    · exact absurd hcovers hnot
    · exact ⟨datas, h.left.run_open hopen, rfl, hparts, heq⟩

/-- The reassembler is between frames, or collects the frame that a suffix of the chunks has started. -/
def Inv (cs : List VideoChunk) (v : Viewer) : Prop :=
  v.re.frameId = none ∨ ∃ cs₁ c₀ ds v₁, cs = cs₁ ++ c₀ :: ds ∧ run step {} cs₁ = some v₁ ∧ Collects v₁ c₀ ds ∧
    ¬ Covers c₀ (c₀ :: ds) ∧ v = ⟨collecting c₀ (c₀ :: ds), v₁.returned⟩

/-- The chunks `c₀ :: ds`, the last of them the last of `cs`, have completed a frame. -/
def Completes (cs : List VideoChunk) (c₀ : VideoChunk) (ds : List VideoChunk) (v₁ : Viewer) : Prop :=
  (∃ cs₁, cs = cs₁ ++ c₀ :: ds ∧ run step {} cs₁ = some v₁) ∧ Collects v₁ c₀ ds ∧ Covers c₀ (c₀ :: ds)

/-- One more chunk is ignored, or kept, or starts a frame, or completes one. -/
theorem step_cases (hrun : run step {} cs = some v) (h : Inv cs v) (d : VideoChunk) :
    ∃ v', step v d = some v' ∧ Inv (cs ++ [d]) v' ∧ (v'.returned = v.returned ∨
      ∃ (c₀ : VideoChunk) (ds : List VideoChunk) (v₁ : Viewer) (datas : List Bytes),
        Completes (cs ++ [d]) c₀ ds v₁ ∧ v₁.returned = v.returned ∧
        (collecting c₀ (c₀ :: ds)).parts = datas.map some ∧
        v'.returned = v.returned ++ [(c₀.frameId, c₀.keyframe, datas.flatten)]) := by
  by_cases hstarts : v.re.starts d.frameId = true
  · have hcollects : Collects v d [] := ⟨hstarts, nofun⟩
    by_cases hcovers : Covers d [d]
    · obtain ⟨w, datas, hw, -, hparts, hstep⟩ := hcollects.run_close [] rfl (not_covers_nil d) hcovers
      cases hw
      exact ⟨_, hstep, Or.inl rfl, Or.inr ⟨d, [], v, datas, ⟨⟨cs, rfl, hrun⟩, hcollects, hcovers⟩, rfl, hparts, rfl⟩⟩
    · have hopen := hcollects.run_open hcovers
      simp only [run] at hopen
      obtain ⟨w, hstep, hw⟩ := Option.bind_eq_some_iff.mp hopen
      cases hw
      exact ⟨_, hstep, Or.inr ⟨cs, d, [], v, rfl, hrun, hcollects, hcovers, rfl⟩, Or.inl rfl⟩
  · rcases h with hnone | ⟨cs₁, c₀, ds, v₁, rfl, hv₁, hcollects, hopen, rfl⟩
    · exact absurd (by simp [starts, hnone]) hstarts
    · have hold : isNewer d.frameId c₀.frameId = false := by simpa [starts, collecting] using hstarts
      have hcollects' : Collects v₁ c₀ (ds ++ [d]) := ⟨hcollects.starts, fun e he => by
        rcases List.mem_append.mp he with hmem | hlast
        · exact hcollects.older e hmem
        · rw [List.mem_singleton.mp hlast]
          exact hold⟩
      have hcs : cs₁ ++ c₀ :: ds ++ [d] = cs₁ ++ c₀ :: (ds ++ [d]) := by simp
      rcases step_collecting v₁.returned hold hopen with ⟨hnot, heq⟩ | ⟨hcovers, datas, hparts, heq⟩
      · exact ⟨_, heq, Or.inr ⟨cs₁, c₀, ds ++ [d], v₁, hcs, hv₁, hcollects', hnot, rfl⟩, Or.inl rfl⟩
      · exact ⟨_, heq, Or.inl rfl, Or.inr ⟨c₀, ds ++ [d], v₁, datas, ⟨⟨cs₁, hcs, hv₁⟩, hcollects', hcovers⟩, rfl,
          hparts, rfl⟩⟩

/-- Whatever is pushed, no push panics, and the invariant holds. -/
theorem run_inv (cs : List VideoChunk) : ∃ v, run step {} cs = some v ∧ Inv cs v := by
  induction cs using List.reverseRecOn with
  | nil => exact ⟨{}, rfl, Or.inl rfl⟩
  | append_singleton cs d ih =>
    obtain ⟨v, hrun, hinv⟩ := ih
    obtain ⟨v', hstep, hinv', -⟩ := step_cases hrun hinv d
    exact ⟨v', (run_snoc_eq_some _).mpr ⟨v, hrun, hstep⟩, hinv'⟩

end Viewer

/-! ### Arbitrary chunks -/

namespace Reassembler

open Slots

variable {r r' : Reassembler} {c : VideoChunk}

/-- There are as many parts as the frame has chunks, and `received` counts the filled ones. -/
structure Consistent (r : Reassembler) : Prop where
  length : r.parts.length = r.count.toNat
  received : r.received = r.parts.countP Option.isSome

/-- A frame is returned with all of its parts. -/
def ReturnsAll (r : Reassembler) (out : Option (Bool × Bytes)) : Prop :=
  ∀ keyframe payload, out = some (keyframe, payload) →
    ∃ datas : List Bytes, datas.length = r.count.toNat ∧ r.parts = datas.map some ∧ payload = datas.flatten

theorem consistent_reset (frameId : BitVec 32) (count : BitVec 16) (keyframe : Bool) :
    (reset frameId count keyframe).Consistent where
  length := by simp [reset]
  received := by simp [reset, List.countP_replicate]

theorem Consistent.store (h : r.Consistent) (idx : ℕ) (data : Bytes) : (r.store idx data).Consistent := by
  unfold Reassembler.store
  split
  next hempty =>
    refine ⟨by simpa using h.length, ?_⟩
    show r.received + 1 = (r.parts.set idx (some data)).countP Option.isSome
    rw [countP_set_some hempty, h.received]
  next => exact h

theorem Consistent.select (h : r.Consistent) (hsel : r.select c = some r') : r'.Consistent := by
  unfold Reassembler.select at hsel
  split_ifs at hsel
  · obtain rfl := Option.some.inj hsel
    exact h
  · obtain rfl := Option.some.inj hsel
    exact consistent_reset ..

/-- A chunk of the frame that is being collected, whatever its index. -/
theorem Consistent.accept (h : r.Consistent) (c : VideoChunk) :
    ∃ r' out, r.accept c = some (r', out) ∧ r'.Consistent ∧ ReturnsAll r' out := by
  have hstore := h.store c.index.toNat c.data
  unfold Reassembler.accept
  dsimp only
  split_ifs with hidx hfull
  · exact ⟨r, none, rfl, h, nofun⟩
  · -- the last slot is filled: what is read out is every part
    obtain ⟨datas, hread, hparts⟩ := mapM_of_countP (r.store c.index.toNat c.data).parts
      (by rw [← hstore.received, hstore.length, hfull.1])
    refine ⟨{ r.store c.index.toNat c.data with frameId := none }, some (_, datas.flatten),
      by rw [assemble, hread]; rfl, ⟨hstore.length, hstore.received⟩, ?_⟩
    rintro keyframe payload hout
    cases hout
    refine ⟨datas, ?_, hparts, rfl⟩
    rw [← hstore.length, hparts, List.length_map]
  · exact ⟨_, none, rfl, hstore, nofun⟩

theorem Consistent.push (h : r.Consistent) (c : VideoChunk) :
    ∃ r' out, r.push c = some (r', out) ∧ r'.Consistent ∧ ReturnsAll r' out := by
  unfold Reassembler.push
  cases hsel : r.select c with
  | none => exact ⟨r, none, rfl, h, nofun⟩
  | some s => exact (h.select hsel).accept c

/-- Whatever chunks are pushed: the state is consistent, and the next push does not panic and returns no frame in which
a part is missing. -/
theorem push_arbitrary (cs : List VideoChunk) :
    ∃ v, Machine.run Viewer.step {} cs = some v ∧ v.re.Consistent ∧
      ∀ c, ∃ r out, v.re.push c = some (r, out) ∧ ReturnsAll r out := by
  have hrun : ∃ v, Machine.run Viewer.step {} cs = some v ∧ v.re.Consistent := by
    induction cs using List.reverseRecOn with
    | nil => exact ⟨{}, rfl, rfl, rfl⟩
    | append_singleton cs c ih =>
      obtain ⟨v, hrun, hv⟩ := ih
      obtain ⟨r, out, hpush, hr, -⟩ := hv.push c
      exact ⟨_, (Machine.run_snoc_eq_some _).mpr ⟨v, hrun, by rw [Viewer.step, hpush]; rfl⟩, hr⟩
  obtain ⟨v, hv, hconsistent⟩ := hrun
  refine ⟨v, hv, hconsistent, fun c => ?_⟩
  obtain ⟨r, out, hpush, -, hall⟩ := hconsistent.push c
  exact ⟨r, out, hpush, hall⟩

end Reassembler

end ScreenLink
