import Mathlib.Algebra.Order.Ring.Int
import Mathlib.Data.List.Induction
import ScreenLink.Input.Edge
import ScreenLink.Lib.Streak

/-!
# Pressure at the return edge

Any sequence of calls on an `EdgeDetector`. With a fixed edge the counter `back_push` is the push of the current streak,
the longest run of last `update_remote` calls that push toward home at the return edge, and control returns when it
reaches the hysteresis (`edgeDetector_spec`). `set_edge` does not reset the counter, so after a change of the edge in the
middle of a streak it also holds what was pushed against the old edge (`pressure_counts_iff`). Integers are unbounded
here.
-/

namespace ScreenLink

/-- Integer operations do not overflow. -/
def Arith.unbounded (f32 : ℚ → F32) : Arith := ⟨id, f32⟩

/-- How far a delta goes toward the return edge. -/
def ScreenEdge.home (edge : ScreenEdge) (dx dy : Int) : Int :=
  match edge with
  | .right => -dx
  | .left => dx
  | .bottom => -dy
  | .top => dy

/-- The arguments of `update_remote`. -/
structure RemoteDelta where
  dx : Int
  dy : Int
  atReturnEdge : Bool
  deriving DecidableEq

/-- It pushes toward home at the return edge. -/
def RemoteDelta.pushes (edge : ScreenEdge) (p : RemoteDelta) : Bool :=
  p.atReturnEdge && decide (0 < edge.home p.dx p.dy)

/-- The push of the current streak; the last delta comes first. -/
def pressure (edge : ScreenEdge) (deltas : List RemoteDelta) : Int :=
  Streak.total (RemoteDelta.pushes edge) (fun p => edge.home p.dx p.dy) deltas

inductive EdgeCall
  | updateLocal (cx cy : Int) (screen : Rect)
  | updateRemote (p : RemoteDelta)
  | forceHome

/-- The calls of the input loop: `set_edge` as well. -/
inductive EdgeUse
  | call (c : EdgeCall)
  | setEdge (edge : ScreenEdge)

namespace EdgeDetector

def call (ar : Arith) (d : EdgeDetector) : EdgeCall → EdgeDetector × Option Transition
  | .updateLocal cx cy screen => d.updateLocal ar cx cy screen
  | .updateRemote p => d.updateRemote ar p.dx p.dy p.atReturnEdge
  | .forceHome => d.forceHome

end EdgeDetector

/-- A detector, and the history of the calls on it. -/
structure EdgeRun where
  det : EdgeDetector
  /-- The transitions returned so far. -/
  returned : List Transition
  /-- The `update_remote` calls since control crossed and since the edge changed, the last one first. -/
  recent : List RemoteDelta
  /-- The push of the current streak from before the edge changed. -/
  carried : Int

namespace EdgeRun

def start (edge : ScreenEdge) (hysteresis : Int) : EdgeRun := ⟨.new edge hysteresis, [], [], 0⟩

/-- The history after an `update_remote` call. -/
def record (t : EdgeRun) (p : RemoteDelta) : EdgeRun :=
  { t with
    recent := p :: t.recent
    carried := if p.pushes t.det.edge then t.carried else 0 }

def use (ar : Arith) (t : EdgeRun) : EdgeUse → EdgeRun
  | .setEdge edge =>
    if edge = t.det.edge then t
    else { t with
      det := t.det.setEdge edge
      recent := []
      carried := t.carried + pressure t.det.edge t.recent }
  | .call c =>
    let (det, res) := t.det.call ar c
    match c, res with
    | .updateLocal .., some transition => ⟨det, t.returned ++ [transition], [], 0⟩
    | .updateRemote p, _ => { t.record p with det := det, returned := t.returned ++ res.toList }
    | _, _ => { t with det := det, returned := t.returned ++ res.toList }

def after (ar : Arith) (t : EdgeRun) (uses : List EdgeUse) : EdgeRun := uses.foldl (use ar) t

theorem after_snoc (ar : Arith) (t : EdgeRun) (uses : List EdgeUse) (u : EdgeUse) :
    t.after ar (uses ++ [u]) = (t.after ar uses).use ar u := by
  simp [after]

theorem use_setEdge_det (ar : Arith) (t : EdgeRun) (edge : ScreenEdge) :
    (t.use ar (.setEdge edge)).det = t.det.setEdge edge := by
  simp only [use]
  split_ifs with hsame
  · rw [hsame]
    rfl
  · rfl

end EdgeRun

/-! ### The pressure of a list of deltas -/

variable {edge : ScreenEdge} {p : RemoteDelta} {deltas : List RemoteDelta} {f32 : ℚ → F32} {d : EdgeDetector}

theorem pressure_cons_of_pushes (h : p.pushes edge = true) :
    pressure edge (p :: deltas) = edge.home p.dx p.dy + pressure edge deltas := Streak.total_cons_of_counts h

theorem pressure_cons_of_not_pushes (h : p.pushes edge = false) : pressure edge (p :: deltas) = 0 :=
  Streak.total_cons_of_not_counts h

theorem RemoteDelta.pushes_iff : p.pushes edge = true ↔ p.atReturnEdge = true ∧ 0 < edge.home p.dx p.dy := by
  rw [RemoteDelta.pushes, Bool.and_eq_true, decide_eq_true_eq]

theorem pressure_nonneg (edge : ScreenEdge) (deltas : List RemoteDelta) : 0 ≤ pressure edge deltas :=
  Streak.total_nonneg (fun _ h => (RemoteDelta.pushes_iff.mp h).2.le) deltas

namespace EdgeDetector

theorem updateRemote_eq (f32 : ℚ → F32) (d : EdgeDetector) (p : RemoteDelta) (hsite : d.site = .remote) :
    d.updateRemote (.unbounded f32) p.dx p.dy p.atReturnEdge =
      if p.pushes d.edge = true then
        if d.hysteresis ≤ d.backPush + d.edge.home p.dx p.dy then
          ({ d with site := .local, backPush := 0 }, some .toLocal)
        else ({ d with backPush := d.backPush + d.edge.home p.dx p.dy }, none)
      else ({ d with backPush := 0 }, none) := by
  unfold updateRemote
  rw [if_neg (by simp [hsite])]
  simp only [RemoteDelta.pushes_iff]
  cases hedge : d.edge <;> simp [ScreenEdge.home, Arith.unbounded] <;> congr

theorem updateRemote_det (f32 : ℚ → F32) (d : EdgeDetector) (p : RemoteDelta) (hsite : d.site = .remote) :
    (d.updateRemote (.unbounded f32) p.dx p.dy p.atReturnEdge).1 =
      if p.pushes d.edge = true then
        if d.hysteresis ≤ d.backPush + d.edge.home p.dx p.dy then { d with site := .local, backPush := 0 }
        else { d with backPush := d.backPush + d.edge.home p.dx p.dy }
      else { d with backPush := 0 } := by
  rw [updateRemote_eq f32 d p hsite]
  split_ifs <;> rfl

theorem updateRemote_of_local (ar : Arith) (d : EdgeDetector) (dx dy : Int) (atReturnEdge : Bool)
    (hsite : d.site = .local) : d.updateRemote ar dx dy atReturnEdge = (d, none) := by
  rw [updateRemote, if_pos (by simp [hsite])]

theorem updateLocal_eq (ar : Arith) (d : EdgeDetector) (cx cy : Int) (screen : Rect) :
    d.updateLocal ar cx cy screen = (d, none) ∨ d.site = .local ∧ ∃ entryNorm,
      d.updateLocal ar cx cy screen = ({ d with site := .remote, backPush := 0 }, some (.toRemote entryNorm)) := by
  unfold updateLocal
  by_cases hsite : d.site ≠ .local
  · exact Or.inl (if_pos hsite)
  · rw [if_neg hsite]
    dsimp only
    split_ifs
    · exact Or.inl rfl
    · exact Or.inr ⟨not_not.mp hsite, _, rfl⟩

end EdgeDetector

namespace EdgeRun

/-! ### What a call does -/

/-- Any call: it leaves the detector, changes its edge, crosses, or comes home; or it is an `update_remote` call that
counts, or one that sets the counter back. -/
inductive Turn (t : EdgeRun) : EdgeUse → EdgeRun → Prop
  | quiet {u : EdgeUse} (hother : ∀ p, u ≠ .call (.updateRemote p)) : Turn t u t
  | edge {edge : ScreenEdge} : Turn t (.setEdge edge)
      { t with det := t.det.setEdge edge, recent := [], carried := t.carried + pressure t.det.edge t.recent }
  | crosses {cx cy : Int} {screen : Rect} {entryNorm : F32} (hsite : t.det.site = .local) :
      Turn t (.call (.updateLocal cx cy screen))
        { det := { t.det with site := .remote, backPush := 0 }
          returned := t.returned ++ [.toRemote entryNorm]
          recent := []
          carried := 0 }
  | ignored {p : RemoteDelta} (hsite : t.det.site = .local) : Turn t (.call (.updateRemote p)) (t.record p)
  | counts {p : RemoteDelta} (hsite : t.det.site = .remote) (hpush : p.pushes t.det.edge = true)
      (hbelow : t.det.backPush + t.det.edge.home p.dx p.dy < t.det.hysteresis) :
      Turn t (.call (.updateRemote p))
        { t.record p with det := { t.det with backPush := t.det.backPush + t.det.edge.home p.dx p.dy } }
  | resets {p : RemoteDelta} (hsite : t.det.site = .remote) (hpush : p.pushes t.det.edge = false) :
      Turn t (.call (.updateRemote p)) { t.record p with det := { t.det with backPush := 0 } }
  | returns {p : RemoteDelta} (hsite : t.det.site = .remote) (hpush : p.pushes t.det.edge = true)
      (hreach : t.det.hysteresis ≤ t.det.backPush + t.det.edge.home p.dx p.dy) :
      Turn t (.call (.updateRemote p))
        { t.record p with
          det := { t.det with site := .local, backPush := 0 }
          returned := t.returned ++ [.toLocal] }
  | forced (hsite : t.det.site = .remote) : Turn t (.call .forceHome)
      { t with det := { t.det with site := .local, backPush := 0 }, returned := t.returned ++ [.toLocal] }

theorem use_turn (f32 : ℚ → F32) (t : EdgeRun) (u : EdgeUse) : Turn t u (t.use (.unbounded f32) u) := by
  rcases u with (⟨cx, cy, screen⟩ | p | _) | edge
  · simp only [use, EdgeDetector.call]
    rcases t.det.updateLocal_eq (.unbounded f32) cx cy screen with heq | ⟨hsite, entryNorm, heq⟩
    · simp only [heq, Option.toList_none, List.append_nil]
      exact .quiet (by simp)
    · simp only [heq]
      exact .crosses hsite
  · simp only [use, EdgeDetector.call]
    cases hsite : t.det.site with
    | «local» =>
      simp only [t.det.updateRemote_of_local _ _ _ _ hsite, Option.toList_none, List.append_nil]
      exact .ignored hsite
    | remote =>
      rw [t.det.updateRemote_eq f32 p hsite]
      split_ifs with hpush hreach
      · exact .returns hsite hpush hreach
      · simp only [Option.toList_none, List.append_nil]
        exact .counts hsite hpush (Int.not_le.mp hreach)
      · simp only [Option.toList_none, List.append_nil]
        exact .resets hsite (Bool.not_eq_true _ ▸ hpush)
  · simp only [use, EdgeDetector.call]
    rcases t.det.forceHome_cases with ⟨hsite, heq⟩ | ⟨hsite, heq⟩
    · simp only [heq]
      exact .forced hsite
    · simp only [heq, Option.toList_none, List.append_nil]
      exact .quiet (by simp)
  · simp only [use]
    split_ifs with hsame
    · exact .quiet (by simp)
    · exact .edge

/-! ### What holds after any calls -/

/-- The counter is the push of the current streak, and has not reached the hysteresis. -/
structure Tracked (t : EdgeRun) : Prop where
  hysteresis : 1 ≤ t.det.hysteresis
  carried : 0 ≤ t.carried
  atHome : t.det.site = .local → t.det.backPush = 0
  away : t.det.site = .remote → t.det.backPush = pressure t.det.edge t.recent + t.carried
  below : t.det.backPush < t.det.hysteresis
  earlier : t.det.site = .remote → ∀ v, v <:+ t.recent → pressure t.det.edge v < t.det.hysteresis

/-- The transitions alternate, and the last one says where control is. -/
structure Alternating (t : EdgeRun) : Prop where
  site : t.det.site = .remote ↔ t.returned.length % 2 = 1
  toLocal : ∀ i (hi : i < t.returned.length), t.returned[i] = .toLocal ↔ i % 2 = 1

variable {t t' : EdgeRun} {u : EdgeUse}

theorem Tracked.backPush_nonneg (h : t.Tracked) : 0 ≤ t.det.backPush := by
  cases hsite : t.det.site with
  | «local» => exact (h.atHome hsite).ge
  | remote =>
    rw [h.away hsite]
    exact Int.add_nonneg (pressure_nonneg _ _) h.carried

theorem tracked_step (h : t.Tracked) (hturn : Turn t u t') : t'.Tracked := by
  have hpos : (0 : Int) < t.det.hysteresis := h.hysteresis
  have hcarried : ∀ p : RemoteDelta, 0 ≤ (t.record p).carried := by
    intro p
    show 0 ≤ (if p.pushes t.det.edge = true then t.carried else 0)
    split_ifs
    · exact h.carried
    · exact le_rfl
  rcases hturn with _ | _ | hsite | hsite | ⟨hsite, hpush, hbelow⟩ | ⟨hsite, hpush⟩ | ⟨hsite, hpush, hreach⟩ | hsite
  · exact h
  · refine ⟨h.hysteresis, Int.add_nonneg h.carried (pressure_nonneg _ _), h.atHome, fun hremote => ?_, h.below, ?_⟩
    · show t.det.backPush = 0 + (t.carried + pressure t.det.edge t.recent)
      rw [h.away hremote]
      omega
    · rintro - v hv
      rw [List.suffix_nil.mp hv]
      exact hpos
  · refine ⟨h.hysteresis, le_rfl, fun _ => rfl, fun _ => rfl, hpos, ?_⟩
    rintro - v hv
    rw [List.suffix_nil.mp hv]
    exact hpos
  · refine ⟨h.hysteresis, hcarried _, h.atHome, fun hremote => ?_, h.below, fun hremote => ?_⟩
    · exact absurd (hsite.symm.trans hremote) (by simp)
    · exact absurd (hsite.symm.trans hremote) (by simp)
  · rename_i p
    have hcounted : pressure t.det.edge (p :: t.recent) + t.carried =
        t.det.backPush + t.det.edge.home p.dx p.dy := by
      rw [pressure_cons_of_pushes hpush, h.away hsite]
      omega
    refine ⟨h.hysteresis, hcarried p, fun hlocal => absurd (hsite.symm.trans hlocal) (by simp), fun _ => ?_, hbelow, ?_⟩
    · show _ = pressure t.det.edge (p :: t.recent) + if p.pushes t.det.edge = true then t.carried else 0
      rw [if_pos hpush, hcounted]
    · rintro - v hv
      rcases List.suffix_cons_iff.mp hv with rfl | hv
      · have := h.carried
        show pressure t.det.edge (p :: t.recent) < t.det.hysteresis
        omega
      · exact h.earlier hsite v hv
  · rename_i p
    refine ⟨h.hysteresis, hcarried p, fun _ => rfl, fun _ => ?_, hpos, ?_⟩
    · show 0 = pressure t.det.edge (p :: t.recent) + if p.pushes t.det.edge = true then t.carried else 0
      rw [pressure_cons_of_not_pushes hpush, if_neg (by simp [hpush]), Int.add_zero]
    · rintro - v hv
      rcases List.suffix_cons_iff.mp hv with rfl | hv
      · show pressure t.det.edge (p :: t.recent) < t.det.hysteresis
        rwa [pressure_cons_of_not_pushes hpush]
      · exact h.earlier hsite v hv
  · exact ⟨h.hysteresis, hcarried _, fun _ => rfl, by simp, hpos, by simp⟩
  · exact ⟨h.hysteresis, h.carried, fun _ => rfl, by simp, hpos, by simp⟩

theorem Alternating.append (h : t.Alternating) {det : EdgeDetector} {tr : Transition} (hsite : det.site ≠ t.det.site)
    (htr : tr = .toLocal ↔ det.site = .local) (recent : List RemoteDelta) (carried : Int) :
    Alternating ⟨det, t.returned ++ [tr], recent, carried⟩ := by
  have hflip : det.site = .remote ↔ ¬ t.det.site = .remote := by
    cases hdet : det.site <;> cases ht : t.det.site <;> simp_all
  have hlocal : det.site = .local ↔ ¬ det.site = .remote := by cases det.site <;> simp
  refine ⟨?_, fun i hi => ?_⟩
  · show det.site = .remote ↔ (t.returned ++ [tr]).length % 2 = 1
    rw [hflip, h.site, List.length_append, List.length_singleton]
    omega
  · show (t.returned ++ [tr])[i] = .toLocal ↔ i % 2 = 1
    rw [List.length_append, List.length_singleton] at hi
    by_cases hlt : i < t.returned.length
    · rw [List.getElem_append_left hlt]
      exact h.toLocal i hlt
    · obtain rfl : i = t.returned.length := by omega
      rw [List.getElem_concat_length rfl, htr, hlocal, hflip, not_not, h.site]

theorem alternating_step (h : t.Alternating) (hturn : Turn t u t') : t'.Alternating := by
  rcases hturn with _ | _ | hsite | hsite | ⟨hsite, hpush, hbelow⟩ | ⟨hsite, hpush⟩ | ⟨hsite, hpush, hreach⟩ | hsite
  · exact h
  · exact ⟨h.site, h.toLocal⟩
  · exact h.append (by simp [hsite]) (by simp) _ _
  · exact ⟨h.site, h.toLocal⟩
  · exact ⟨h.site, h.toLocal⟩
  · exact ⟨h.site, h.toLocal⟩
  · exact h.append (by simp [hsite]) (by simp) _ _
  · exact h.append (by simp [hsite]) (by simp) _ _

theorem hysteresis_turn (hturn : Turn t u t') : t'.det.hysteresis = t.det.hysteresis := by
  cases hturn <;> rfl

variable (f32 : ℚ → F32) (edge : ScreenEdge) (hysteresis : Int)

theorem tracked_start : (start edge hysteresis).Tracked where
  hysteresis := le_max_right _ _
  carried := le_rfl
  atHome _ := rfl
  away hremote := by cases hremote
  below := (show (0 : Int) < 1 by decide).trans_le (le_max_right _ _)
  earlier hremote := by cases hremote

theorem tracked_after (uses : List EdgeUse) : ((start edge hysteresis).after (.unbounded f32) uses).Tracked := by
  induction uses using List.reverseRecOn with
  | nil => exact tracked_start edge hysteresis
  | append_singleton uses u ih =>
    rw [after_snoc]
    exact tracked_step ih (use_turn f32 _ u)

theorem alternating_after (uses : List EdgeUse) :
    ((start edge hysteresis).after (.unbounded f32) uses).Alternating := by
  induction uses using List.reverseRecOn with
  | nil => exact ⟨by simp [after, start, EdgeDetector.new], fun i hi => absurd hi (Nat.not_lt_zero i)⟩
  | append_singleton uses u ih =>
    rw [after_snoc]
    exact alternating_step ih (use_turn f32 _ u)

theorem hysteresis_after (uses : List EdgeUse) :
    ((start edge hysteresis).after (.unbounded f32) uses).det.hysteresis = max hysteresis 1 := by
  induction uses using List.reverseRecOn with
  | nil => rfl
  | append_singleton uses u ih =>
    rw [after_snoc, ← ih]
    exact hysteresis_turn (use_turn f32 _ u)

theorem fixed_after (calls : List EdgeCall) :
    ((start edge hysteresis).after (.unbounded f32) (calls.map .call)).det.edge = edge ∧
      ((start edge hysteresis).after (.unbounded f32) (calls.map .call)).carried = 0 := by
  induction calls using List.reverseRecOn with
  | nil => exact ⟨rfl, rfl⟩
  | append_singleton calls c ih =>
    rw [List.map_append, List.map_singleton, after_snoc]
    have hturn := use_turn f32 ((start edge hysteresis).after (.unbounded f32) (calls.map .call)) (.call c)
    generalize (start edge hysteresis).after (.unbounded f32) (calls.map .call) = t at ih hturn ⊢
    generalize t.use (.unbounded f32) (.call c) = t' at hturn ⊢
    have hrecord : ∀ p : RemoteDelta, (t.record p).carried = 0 := by
      intro p
      show (if p.pushes t.det.edge = true then t.carried else 0) = 0
      rw [ih.2, ite_self]
    rcases hturn with _ | _ | _ | _ | _ | _ | _ | _
    · exact ih
    · exact ⟨ih.1, rfl⟩
    · exact ⟨ih.1, hrecord _⟩
    · exact ⟨ih.1, hrecord _⟩
    · exact ⟨ih.1, hrecord _⟩
    · exact ⟨ih.1, hrecord _⟩
    · exact ih

theorem toLocal_iff (t : EdgeRun) (p : RemoteDelta) :
    (t.det.updateRemote (.unbounded f32) p.dx p.dy p.atReturnEdge).2 = some .toLocal ↔
      t.det.site = .remote ∧ p.pushes t.det.edge = true ∧
        t.det.hysteresis ≤ t.det.backPush + t.det.edge.home p.dx p.dy := by
  cases hsite : t.det.site with
  | «local» => simp [t.det.updateRemote_of_local _ _ _ _ hsite]
  | remote =>
    rw [t.det.updateRemote_eq f32 p hsite]
    split_ifs <;> simp_all

end EdgeRun

open EdgeRun in
/-- For a fixed edge and any calls: the transitions alternate, starting with a crossing; `update_remote` returns
`ToLocal` exactly when control is remote and the push of the current streak reaches the hysteresis for the first time in
this visit; a delta off the return edge never does; and the counter stays between zero and the hysteresis. -/
theorem edgeDetector_spec (f32 : ℚ → F32) (edge : ScreenEdge) (hysteresis : Int) (calls : List EdgeCall) :
    let t := (start edge hysteresis).after (.unbounded f32) (calls.map .call)
    (∀ i (hi : i < t.returned.length), t.returned[i] = .toLocal ↔ i % 2 = 1) ∧
      (∀ p : RemoteDelta, (t.det.updateRemote (.unbounded f32) p.dx p.dy p.atReturnEdge).2 = some .toLocal ↔
        t.det.site = .remote ∧ max hysteresis 1 ≤ pressure edge (p :: t.recent) ∧
          ∀ v, v <:+ t.recent → pressure edge v < max hysteresis 1) ∧
      (∀ dx dy, (t.det.updateRemote (.unbounded f32) dx dy false).2 = none) ∧
      0 ≤ t.det.backPush ∧ t.det.backPush < max hysteresis 1 := by
  dsimp only
  have htracked := tracked_after f32 edge hysteresis (calls.map .call)
  have hhyst := hysteresis_after f32 edge hysteresis (calls.map .call)
  obtain ⟨hedge, hcarried⟩ := fixed_after f32 edge hysteresis calls
  have halternating := alternating_after f32 edge hysteresis (calls.map .call)
  generalize (start edge hysteresis).after (.unbounded f32) (calls.map .call) = t at *
  refine ⟨halternating.toLocal, fun p => ?_, fun dx dy => ?_, htracked.backPush_nonneg, hhyst ▸ htracked.below⟩
  · rw [toLocal_iff, hhyst, hedge]
    refine and_congr_right fun hsite => ?_
    have hback : t.det.backPush = pressure edge t.recent := by rw [htracked.away hsite, hedge, hcarried, Int.add_zero]
    have hearlier : ∀ v, v <:+ t.recent → pressure edge v < max hysteresis 1 := by
      rw [← hhyst, ← hedge]
      exact htracked.earlier hsite
    rw [and_iff_left hearlier, hback]
    cases hpush : p.pushes edge with
    | true =>
      rw [pressure_cons_of_pushes hpush, Int.add_comm, and_iff_right rfl]
    | false =>
      rw [pressure_cons_of_not_pushes hpush]
      refine iff_of_false (by simp) (Int.not_le.mpr ?_)
      exact (show (0 : Int) < 1 by decide).trans_le (le_max_right _ _)
  · cases hsite : t.det.site with
    | «local» => rw [t.det.updateRemote_of_local _ _ _ _ hsite]
    | remote =>
      rw [t.det.updateRemote_eq f32 ⟨dx, dy, false⟩ hsite, if_neg (by simp [RemoteDelta.pushes])]

/-! ### A change of the edge in the middle of a streak -/

/-- The push against the present edge is not enough, and that against the old one makes it up. -/
def EdgeRun.Carries (t : EdgeRun) (p : RemoteDelta) : Prop :=
  t.det.site = .remote ∧ p.pushes t.det.edge = true ∧ pressure t.det.edge (p :: t.recent) < t.det.hysteresis ∧
    t.det.hysteresis ≤ pressure t.det.edge (p :: t.recent) + t.carried

instance (t : EdgeRun) (p : RemoteDelta) : Decidable (t.Carries p) := inferInstanceAs (Decidable (_ ∧ _))

open EdgeRun in
/-- For any calls, `set_edge` as well: `update_remote` returns `ToLocal` only if the pushes since the last change of the
edge reach the hysteresis, iff no push falls short of it without what was pushed against the old edge. -/
theorem pressure_counts_iff (f32 : ℚ → F32) (edge : ScreenEdge) (hysteresis : Int) (uses : List EdgeUse) :
    (∀ front p back, uses = front ++ .call (.updateRemote p) :: back →
        let t := (start edge hysteresis).after (.unbounded f32) front
        (t.det.updateRemote (.unbounded f32) p.dx p.dy p.atReturnEdge).2 = some .toLocal →
          max hysteresis 1 ≤ pressure t.det.edge (p :: t.recent)) ↔
      ∀ front p back, uses = front ++ .call (.updateRemote p) :: back →
        ¬ ((start edge hysteresis).after (.unbounded f32) front).Carries p := by
  refine forall₃_congr fun front p back => imp_congr_right fun _ => ?_
  dsimp only
  have htracked := tracked_after f32 edge hysteresis front
  rw [← hysteresis_after f32 edge hysteresis front, toLocal_iff]
  generalize (start edge hysteresis).after (.unbounded f32) front = t at *
  have hcount : t.det.site = .remote → p.pushes t.det.edge = true →
      t.det.backPush + t.det.edge.home p.dx p.dy = pressure t.det.edge (p :: t.recent) + t.carried := by
    intro hsite hpush
    rw [pressure_cons_of_pushes hpush, htracked.away hsite]
    omega
  constructor
  · rintro hall ⟨hsite, hpush, hshort, hreach⟩
    rw [← hcount hsite hpush] at hreach
    exact absurd (hall ⟨hsite, hpush, hreach⟩) (Int.not_le.mpr hshort)
  · rintro hnot ⟨hsite, hpush, hreach⟩
    rw [hcount hsite hpush] at hreach
    by_contra hshort
    exact hnot ⟨hsite, hpush, Int.not_le.mp hshort, hreach⟩

/-- A push of 15 against the right edge, and one of 10 after the edge has become the top one. -/
def turnedEdge : List EdgeUse :=
  [.call (.updateLocal 1919 540 ⟨0, 0, 1920, 1080⟩), .call (.updateRemote ⟨-15, 0, true⟩), .setEdge .top]

/-- Control returns though only 10 of the 20 pixels were pushed against the top edge. -/
theorem turnedEdge_returns :
    let t := (EdgeRun.start .right 20).after .exact turnedEdge
    (t.det.updateRemote .exact 0 10 true).2 = some .toLocal ∧ pressure t.det.edge (⟨0, 10, true⟩ :: t.recent) = 10 := by
  decide +kernel

end ScreenLink
