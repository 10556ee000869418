import Mathlib.Algebra.Group.Nat.Defs
import ScreenLink.Video.Reassembly

/-!
# Does the video run backwards?

The reassembler forgets which frame it has returned last: between two frames it starts whatever comes. So the ids of
the returned frames go strictly forward exactly as long as no frame that is not newer than the one returned last is
started and then gets all of its chunks before one of a newer frame (`video_forward_iff`). A frame of one chunk that
the network delays behind the next frame is enough (`late_frame_returned`).
-/

namespace ScreenLink

open Machine Reassembler

theorem isNewer_iff (base : BitVec 32) {i j : ℕ} (hi : i < 2 ^ 30) (hj : j < 2 ^ 30) :
    isNewer (base + BitVec.ofNat 32 i) (base + BitVec.ofNat 32 j) = true ↔ j < i := by
  have hlimit : 0xFFFFFFFF#32 / 2#32 = 0x7FFFFFFF#32 := by decide
  rw [isNewer, hlimit, Bool.and_eq_true, bne_iff_ne, decide_eq_true_eq]
  constructor
  · rintro ⟨hne, hlt⟩
    by_contra hle
    rcases Nat.eq_or_lt_of_le (Nat.not_lt.mp hle) with rfl | hlt'
    · exact hne rfl
    · bv_omega
  · intro hlt
    refine ⟨fun heq => ?_, ?_⟩ <;> bv_omega

namespace Viewer

variable {cs ds : List VideoChunk} {c₀ d : VideoChunk} {v v₁ v' : Viewer}

/-- The ids of the frames returned. -/
def ids (v : Viewer) : List (BitVec 32) := v.returned.map Prod.fst

/-- Each frame returned is newer than those before it. -/
def Forward (v : Viewer) : Prop := v.ids.Pairwise fun a b => isNewer b a = true

/-- After the frame `g`, a frame that is not newer is started and gets all of its chunks before one of a newer
frame. -/
def StaleFrame (cs : List VideoChunk) : Prop :=
  ∃ cs₁ c₀ ds cs₂ v₁ g, cs = cs₁ ++ (c₀ :: ds) ++ cs₂ ∧ run step {} cs₁ = some v₁ ∧ v₁.ids.getLast? = some g ∧
    isNewer c₀.frameId g = false ∧ Collects v₁ c₀ ds ∧ Covers c₀ (c₀ :: ds)

theorem StaleFrame.append (h : StaleFrame cs) (es : List VideoChunk) : StaleFrame (cs ++ es) := by
  obtain ⟨cs₁, c₀, ds, cs₂, v₁, g, rfl, hrest⟩ := h
  exact ⟨cs₁, c₀, ds, cs₂ ++ es, v₁, g, by simp, hrest⟩

theorem returned_of_run {es : List VideoChunk} (hrun : run step v es = some v') :
    ∃ later, v'.returned = v.returned ++ later := by
  induction es generalizing v with
  | nil =>
    cases hrun
    exact ⟨[], (List.append_nil _).symm⟩
  | cons e es ih =>
    obtain ⟨w, hstep, hrest⟩ := Option.bind_eq_some_iff.mp hrun
    obtain ⟨later, hlater⟩ := ih hrest
    obtain ⟨⟨re, out⟩, -, rfl⟩ := Option.map_eq_some_iff.mp hstep
    exact ⟨_, by rw [hlater, List.append_assoc]⟩

theorem mem_ids_of_run (hrun : run step {} cs = some v) : ∀ id ∈ v.ids, ∃ c ∈ cs, c.frameId = id := by
  refine run_induction (P := fun es w => ∀ id ∈ w.ids, ∃ c ∈ es, c.frameId = id) ?_ ?_ cs v hrun
  · rintro id hid
    cases hid
  · intro es t e u ht ih hstep id hid
    obtain ⟨⟨re, out⟩, -, rfl⟩ := Option.map_eq_some_iff.mp hstep
    simp only [ids, List.map_append, List.mem_append] at hid
    rcases hid with hold | hnew
    · obtain ⟨c, hc, hcid⟩ := ih id hold
      exact ⟨c, List.mem_append_left _ hc, hcid⟩
    · refine ⟨e, by simp, ?_⟩
      cases out with
      | none => cases hnew
      | some frame => exact (List.mem_singleton.mp hnew).symm

theorem exists_first_covers (h : Covers c₀ ds) :
    ∃ front d rest, ds = front ++ [d] ++ rest ∧ ¬ Covers c₀ front ∧ Covers c₀ (front ++ [d]) := by
  induction ds using List.reverseRecOn with
  | nil => exact absurd h (not_covers_nil c₀)
  | append_singleton ds d ih =>
    by_cases hearlier : Covers c₀ ds
    · obtain ⟨front, e, rest, rfl, hnot, hcovers⟩ := ih hearlier
      exact ⟨front, e, rest ++ [d], by simp, hnot, hcovers⟩
    · exact ⟨ds, d, [], by simp, hearlier, h⟩

/-- A stale frame is returned. -/
theorem not_forward_of_stale (hrun : run step {} cs = some v) (hstale : StaleFrame cs) : ¬ Forward v := by
  obtain ⟨cs₁, c₀, ds, cs₂, v₁, g, rfl, hv₁, hg, hold, hcollects, hcovers⟩ := hstale
  obtain ⟨front, d, rest, hsplit, hnot, hfirst⟩ := exists_first_covers hcovers
  -- the chunks up to the one that completes it
  obtain ⟨es, hes, rfl⟩ : ∃ es, c₀ :: es = front ++ [d] ∧ ds = es ++ rest := by
    cases front with
    | nil =>
      obtain ⟨rfl, rfl⟩ := List.cons.inj hsplit
      exact ⟨[], rfl, rfl⟩
    | cons c front =>
      obtain ⟨rfl, rfl⟩ := List.cons.inj hsplit
      exact ⟨front ++ [d], rfl, rfl⟩
  obtain ⟨w, datas, hw, -, -, hstep⟩ := hcollects.left.run_close front hes hnot (hes ▸ hfirst)
  have hlist : cs₁ ++ c₀ :: (es ++ rest) ++ cs₂ = cs₁ ++ front ++ d :: (rest ++ cs₂) := by
    rw [← List.cons_append, hes]
    simp
  rw [hlist] at hrun
  obtain ⟨w', hw', hrest⟩ := (run_append_eq_some _).mp hrun
  obtain rfl : w = w' := Option.some.inj (((run_append_eq_some _).mpr ⟨v₁, hv₁, hw⟩).symm.trans hw')
  obtain ⟨u, hu, hlast⟩ := Option.bind_eq_some_iff.mp hrest
  obtain rfl := Option.some.inj (hstep.symm.trans hu)
  obtain ⟨later, hlater⟩ := returned_of_run hlast
  intro hforward
  have hids : v.ids = v₁.ids ++ c₀.frameId :: later.map Prod.fst := by simp [ids, hlater]
  rw [Forward, hids, List.pairwise_append] at hforward
  have hnewer := hforward.2.2 g (List.mem_of_getLast? hg) c₀.frameId (List.mem_cons_self ..)
  rw [hold] at hnewer
  cases hnewer

theorem forward_snoc (h : Forward v) {frame : BitVec 32 × Bool × Bytes}
    (hreturned : v'.returned = v.returned ++ [frame])
    (htrans : ∀ a ∈ v.ids, ∀ b ∈ v.ids, isNewer b a = true → isNewer frame.1 b = true → isNewer frame.1 a = true)
    (hlast : ∀ g, v.ids.getLast? = some g → isNewer frame.1 g = true) : Forward v' := by
  have hids : v'.ids = v.ids ++ [frame.1] := by simp [ids, hreturned]
  rw [Forward, hids, List.pairwise_append]
  refine ⟨h, List.pairwise_singleton _ _, fun a ha b hb => ?_⟩
  rw [List.mem_singleton.mp hb]
  rcases List.eq_nil_or_concat v.ids with hnil | ⟨front, g, hconcat⟩
  · rw [hnil] at ha
    cases ha
  · rw [List.concat_eq_append] at hconcat
    have hg := hlast g (by simp [hconcat])
    have hgmem : g ∈ v.ids := by simp [hconcat]
    rw [hconcat, List.mem_append, List.mem_singleton] at ha
    rcases ha with hfront | rfl
    · rw [Forward, hconcat, List.pairwise_append] at h
      exact htrans a (by simp [hconcat, hfront]) g hgmem (h.2.2 a hfront g (by simp)) hg
    · exact hg

/-- The frames have consecutive ids, from `base` on. -/
def Consecutive (base : BitVec 32) (frames : List Frame) : Prop :=
  ∀ k f, frames[k]? = some f → f.id = base + BitVec.ofNat 32 k

theorem Consecutive.frameId {base : BitVec 32} {frames : List Frame} (h : Consecutive base frames)
    (hcs : FromFrames {f | f ∈ frames} cs) {c : VideoChunk} (hc : c ∈ cs) :
    ∃ k < frames.length, c.frameId = base + BitVec.ofNat 32 k := by
  obtain ⟨f, hf, hmem⟩ := hcs c hc
  obtain ⟨k, hk, rfl⟩ := List.getElem_of_mem hf
  obtain ⟨i, data, -, rfl⟩ := mem_splitFrame.mp hmem
  exact ⟨k, hk, h k _ (List.getElem?_eq_getElem hk)⟩

theorem isNewer_trans {base : BitVec 32} {n : ℕ} (hspan : n ≤ 2 ^ 30) {ids : List (BitVec 32)}
    (hids : ∀ id ∈ ids, ∃ k < n, id = base + BitVec.ofNat 32 k) {a b c : BitVec 32} (ha : a ∈ ids) (hb : b ∈ ids)
    (hc : c ∈ ids) (hba : isNewer b a = true) (hcb : isNewer c b = true) : isNewer c a = true := by
  obtain ⟨i, hi, rfl⟩ := hids a ha
  obtain ⟨j, hj, rfl⟩ := hids b hb
  obtain ⟨k, hk, rfl⟩ := hids c hc
  rw [isNewer_iff base (by omega) (by omega)] at hba hcb ⊢
  omega

/-- For frames sent with consecutive ids over a span of at most `2^30`, whatever of their chunks is pushed in whatever
order: the ids returned go strictly forward if and only if no stale frame is started and completed. -/
theorem video_forward_iff {base : BitVec 32} {frames : List Frame} (hids : Consecutive base frames)
    (hspan : frames.length ≤ 2 ^ 30) (hcs : FromFrames {f | f ∈ frames} cs) :
    ∃ v, run step {} cs = some v ∧ (Forward v ↔ ¬ StaleFrame cs) := by
  obtain ⟨v, hrun, -⟩ := run_inv cs
  refine ⟨v, hrun, fun hforward hstale => not_forward_of_stale hrun hstale hforward, fun hnot => ?_⟩
  refine run_induction (P := fun es w => FromFrames {f | f ∈ frames} es → ¬ StaleFrame es → Forward w) ?_ ?_
    cs v hrun hcs hnot
  · intro _ _
    exact List.Pairwise.nil
  · intro es t d u ht ih hstep hes hfresh
    have hforward := ih (fun c hc => hes c (List.mem_append_left _ hc)) fun h => hfresh (h.append [d])
    obtain ⟨w, hw, hinv⟩ := run_inv es
    obtain rfl : t = w := Option.some.inj (ht.symm.trans hw)
    obtain ⟨u', hu', -, hcases⟩ := step_cases ht hinv d
    obtain rfl : u = u' := Option.some.inj (hstep.symm.trans hu')
    rcases hcases with hsame | ⟨c₀, ds, v₁, datas, ⟨⟨cs₁, hsplit, hv₁⟩, hcollects, hcovers⟩, hv₁t, -, hreturned⟩
    · rw [Forward, ids, hsame]
      exact hforward
    · have hu := (run_snoc_eq_some _).mpr ⟨t, ht, hstep⟩
      have hstream : ∀ id ∈ u.ids, ∃ k < frames.length, id = base + BitVec.ofNat 32 k := by
        intro id hid
        obtain ⟨c, hc, rfl⟩ := mem_ids_of_run hu id hid
        exact hids.frameId hes hc
      have hsnoc : u.ids = t.ids ++ [c₀.frameId] := by simp [ids, hreturned]
      refine forward_snoc hforward hreturned ?_ ?_
      · intro a ha b hb hba hcb
        exact isNewer_trans hspan hstream (by simp [hsnoc, ha]) (by simp [hsnoc, hb]) (by simp [hsnoc]) hba hcb
      · intro g hg
        by_contra hold
        rw [Bool.not_eq_true] at hold
        have hlast : v₁.ids.getLast? = some g := by rw [ids, hv₁t]; exact hg
        exact hfresh ⟨cs₁, c₀, ds, [], v₁, g, by simp [hsplit], hv₁, hlast, hold, hcollects, hcovers⟩

/-- Two frames of one chunk each. -/
def twoFrames : List Frame := [⟨7, true, [1], 1100⟩, ⟨8, true, [2], 1100⟩]

theorem consecutive_twoFrames : Consecutive 7 twoFrames := by
  intro k f hf
  match k, hf with
  | 0, hf | 1, hf =>
    cases hf
    rfl
  | k + 2, hf => cases hf

theorem fromFrames_twoFrames {cs : List VideoChunk} (hcs : ∀ c ∈ cs, c ∈ twoFrames.flatMap Frame.chunks) :
    FromFrames {f | f ∈ twoFrames} cs := fun c hc => by
  obtain ⟨f, hf, hmem⟩ := List.mem_flatMap.mp (hcs c hc)
  exact ⟨f, hf, hmem⟩

/-- The first one is delayed behind the second: it is returned after it. -/
theorem late_frame_returned :
    FromFrames {f | f ∈ twoFrames} [⟨8, 0, 1, true, [2]⟩, ⟨7, 0, 1, true, [1]⟩] ∧
      ∃ v, run step {} [⟨8, 0, 1, true, [2]⟩, ⟨7, 0, 1, true, [1]⟩] = some v ∧ v.ids = [8, 7] ∧ ¬ Forward v := by
  refine ⟨fromFrames_twoFrames (by decide), _, rfl, rfl, ?_⟩
  show ¬ List.Pairwise _ [8, 7]
  decide

/-- In order, nothing is stale. -/
theorem video_forward_iff_inOrder :
    ∃ v, run step {} [⟨7, 0, 1, true, [1]⟩, ⟨8, 0, 1, true, [2]⟩] = some v ∧ v.ids = [7, 8] ∧
      ¬ StaleFrame [⟨7, 0, 1, true, [1]⟩, ⟨8, 0, 1, true, [2]⟩] := by
  have hcs : FromFrames {f | f ∈ twoFrames} [⟨7, 0, 1, true, [1]⟩, ⟨8, 0, 1, true, [2]⟩] :=
    fromFrames_twoFrames (by decide)
  obtain ⟨v, hrun, hiff⟩ := video_forward_iff consecutive_twoFrames (by decide) hcs
  cases hrun
  refine ⟨_, rfl, rfl, hiff.mp ?_⟩
  show List.Pairwise _ [7, 8]
  decide

end Viewer

end ScreenLink
