import ScreenLink.Input.Seam

/-!
# Pressure beyond the seam

Of a delta that takes the virtual cursor to the seam only the part behind it is pressure; the counter takes the whole
delta. So a move sends control home on too little pressure exactly when the pixels by which the streak has moved the
cursor are what completes the hysteresis (`seam_pressure_iff`).
-/

namespace ScreenLink

open VirtualCursor

/-- A captured move while control is remote. -/
structure SeamMove where
  /-- The pixels of the delta that the clamp at the seam takes away. -/
  beyond : ℚ
  /-- It pushes at the seam. -/
  counts : Bool
  deriving DecidableEq

def VirtualCursor.seamMove (desktop : Rect) (edge : ScreenEdge) (c : VirtualCursor) (dx dy : Int) : SeamMove where
  beyond := max 0 (edge.home dx dy - c.toSeam desktop edge)
  counts := (c.delta .exact desktop dx dy edge).pushes edge

/-- What has been clamped away in the current streak; the last move comes first. -/
def beyondSeam (streak : List SeamMove) : ℚ := Streak.total SeamMove.counts SeamMove.beyond streak

/-- The loop, and the history of its moves. -/
structure SeamRun where
  host : HostInput
  /-- The moves since control crossed, the last one first. -/
  moves : List SeamMove
  /-- How far the cursor was from the seam before the current streak. -/
  since : ℚ

namespace SeamRun

def start (edge : ScreenEdge) (hysteresis : Int) (rt : RealtimeCrypto) : SeamRun :=
  ⟨.start edge hysteresis rt, [], 0⟩

def step (x : Crates) (desktop : Rect) (edge : ScreenEdge) (t : SeamRun) (step : FixedStep) : SeamRun :=
  let host := loopStep x .exact desktop t.host (step.loop edge)
  match step, t.host.det.site, host.det.site with
  | .poll (some (.move dx dy _ _)), .remote, _ =>
    let move := t.host.cursor.seamMove desktop edge dx dy
    ⟨host, move :: t.moves, if move.counts then t.since else host.cursor.toSeam desktop edge⟩
  | _, .local, .remote => ⟨host, [], host.cursor.toSeam desktop edge⟩
  | _, _, _ => { t with host := host }

def after (x : Crates) (desktop : Rect) (edge : ScreenEdge) (t : SeamRun) (steps : List FixedStep) : SeamRun :=
  steps.foldl (step x desktop edge) t

/-- The push completes the hysteresis, and would not without the pixels by which the streak has moved the cursor. -/
def Inward (desktop : Rect) (edge : ScreenEdge) (t : SeamRun) (dx dy : Int) : Prop :=
  let c := t.host.cursor
  let push := c.det.backPush + edge.home dx dy
  c.det.site = .remote ∧ (c.delta .exact desktop dx dy edge).pushes edge = true ∧ c.det.hysteresis ≤ push ∧
    push < c.det.hysteresis + (t.since - (c.move .exact desktop dx dy).toSeam desktop edge)

variable {x : Crates} {desktop : Rect} {edge : ScreenEdge} {hysteresis : Int} {rt : RealtimeCrypto} {t : SeamRun}

theorem after_snoc (t : SeamRun) (steps : List FixedStep) (s : FixedStep) :
    t.after x desktop edge (steps ++ [s]) = (t.after x desktop edge steps).step x desktop edge s := by
  simp [after]

theorem step_host (t : SeamRun) (s : FixedStep) :
    (t.step x desktop edge s).host = loopStep x .exact desktop t.host (s.loop edge) := by
  unfold step
  dsimp only
  split <;> rfl

theorem after_host (t : SeamRun) (steps : List FixedStep) :
    (t.after x desktop edge steps).host = fixedRun x desktop edge t.host steps := by
  induction steps using List.reverseRecOn with
  | nil => rfl
  | append_singleton steps s ih => rw [after_snoc, step_host, ih, fixedRun_snoc]

/-- The counter is what was clamped away and what has moved the cursor. -/
def Measured (desktop : Rect) (edge : ScreenEdge) (c : VirtualCursor) (moves : List SeamMove) (since : ℚ) : Prop :=
  c.det.site = .remote → beyondSeam moves + (since - c.toSeam desktop edge) = c.det.backPush

theorem beyond_add_moved {c : VirtualCursor} (h : c.Steady desktop edge hysteresis) {dx dy : Int}
    (hhome : 0 < edge.home dx dy) :
    (c.seamMove desktop edge dx dy).beyond + (c.toSeam desktop edge - (c.move .exact desktop dx dy).toSeam desktop edge) =
      edge.home dx dy := by
  have hmem := h.toSeam_mem
  have hpos : (0 : ℚ) < edge.home dx dy := Int.cast_pos.mpr hhome
  rw [toSeam_move, seamMove, min_eq_right (by linarith)]
  dsimp only
  rcases le_total (c.toSeam desktop edge) (edge.home dx dy : ℚ) with hle | hle
  · rw [max_eq_right (sub_nonneg.mpr hle), max_eq_left (sub_nonpos.mpr hle)]
    ring
  · rw [max_eq_left (sub_nonpos.mpr hle), max_eq_right (sub_nonneg.mpr hle)]
    ring

theorem step_cases (t : SeamRun) (s : FixedStep) :
    let host := loopStep x .exact desktop t.host (s.loop edge)
    (∃ dx dy absX absY, s = .poll (some (.move dx dy absX absY)) ∧ t.host.det.site = .remote ∧
      t.step x desktop edge s =
        ⟨host, t.host.cursor.seamMove desktop edge dx dy :: t.moves,
          if (t.host.cursor.seamMove desktop edge dx dy).counts then t.since
          else host.cursor.toSeam desktop edge⟩) ∨
    (t.host.det.site = .local ∧ host.det.site = .remote ∧
      t.step x desktop edge s = ⟨host, [], host.cursor.toSeam desktop edge⟩) ∨
    ((t.host.det.site = .remote → ∀ dx dy absX absY, s ≠ .poll (some (.move dx dy absX absY))) ∧
      (t.host.det.site = .local → host.det.site = .local) ∧ t.step x desktop edge s = { t with host := host }) := by
  dsimp only
  unfold step
  dsimp only
  split
  · rename_i dx dy absX absY hsite
    exact Or.inl ⟨dx, dy, absX, absY, rfl, hsite, rfl⟩
  · rename_i hlocal hremote
    exact Or.inr (Or.inl ⟨hlocal, hremote, rfl⟩)
  · rename_i hmove hcross
    refine Or.inr (Or.inr ⟨fun hremote dx dy absX absY hs => hmove dx dy absX absY hs hremote, fun hlocal => ?_, rfl⟩)
    have hstays := hcross hlocal
    revert hstays
    cases (loopStep x .exact desktop t.host _).det.site <;> simp

theorem cursor_move (x : Crates) (h : HostInput) (hsite : h.det.site = .remote) (dx dy absX absY : Int) :
    (loopStep x .exact desktop h (.poll (some (.move dx dy absX absY)) edge)).cursor =
      (h.cursor.move .exact desktop dx dy).pressReturn .exact dx dy edge := by
  have hsite' : h.cursor.det.site = .remote := hsite
  show (hostPoll x .exact desktop h (some (.move dx dy absX absY)) edge).cursor = _
  simp only [HostInput.cursor_hostPoll, poll, hsite']

variable {c : VirtualCursor} {moves : List SeamMove} {since : ℚ}

theorem beyondSeam_cons (h : c.Steady desktop edge hysteresis) (hmeasured : Measured desktop edge c moves since)
    (hsite : c.det.site = .remote) {dx dy : Int} (hpush : (c.delta .exact desktop dx dy edge).pushes edge = true) :
    beyondSeam (c.seamMove desktop edge dx dy :: moves) + (since - (c.move .exact desktop dx dy).toSeam desktop edge) =
      c.det.backPush + edge.home dx dy := by
  have hmoved := beyond_add_moved h ((pushes_delta_iff desktop edge c dx dy).mp hpush).2
  have hcounted := hmeasured hsite
  have hcons : beyondSeam (c.seamMove desktop edge dx dy :: moves) =
      (c.seamMove desktop edge dx dy).beyond + beyondSeam moves := Streak.total_cons_of_counts hpush
  rw [hcons]
  linarith

theorem measured_move (h : c.Steady desktop edge hysteresis) (hmeasured : Measured desktop edge c moves since)
    (hsite : c.det.site = .remote) (dx dy : Int) :
    let c' := (c.move .exact desktop dx dy).pressReturn .exact dx dy edge
    Measured desktop edge c' (c.seamMove desktop edge dx dy :: moves)
      (if (c.seamMove desktop edge dx dy).counts then since else c'.toSeam desktop edge) := by
  dsimp only
  have hdet := det_moves desktop hsite h.edge_eq dx dy
  have hseam : ((c.move .exact desktop dx dy).pressReturn .exact dx dy edge).toSeam desktop edge =
      (c.move .exact desktop dx dy).toSeam desktop edge := by rw [toSeam, depth_pressReturn, toSeam]
  generalize (c.move .exact desktop dx dy).pressReturn .exact dx dy edge = c' at hdet hseam ⊢
  cases hpush : (c.delta .exact desktop dx dy edge).pushes edge with
  | true =>
    have hcons := beyondSeam_cons h hmeasured hsite hpush
    have hcounts : (c.seamMove desktop edge dx dy).counts = true := hpush
    rw [if_pos hpush] at hdet
    rw [if_pos hcounts]
    intro hremote
    split_ifs at hdet with hreach
    · rw [hdet] at hremote
      cases hremote
    · rw [hseam, hcons, hdet]
      push_cast
      ring
  | false =>
    have hcounts : (c.seamMove desktop edge dx dy).counts = false := hpush
    rw [if_neg (by simp [hpush])] at hdet
    rw [if_neg (by simp [hcounts])]
    intro _
    have hnone : beyondSeam (c.seamMove desktop edge dx dy :: moves) = 0 := Streak.total_cons_of_not_counts hcounts
    rw [hnone, hdet]
    simp

theorem measured_step (h : t.host.cursor.Steady desktop edge hysteresis)
    (hmeasured : Measured desktop edge t.host.cursor t.moves t.since) (s : FixedStep) :
    let u := t.step x desktop edge s
    Measured desktop edge u.host.cursor u.moves u.since := by
  dsimp only
  rcases t.step_cases s with ⟨dx, dy, absX, absY, rfl, hsite, heq⟩ | ⟨hlocal, hremote, heq⟩ | ⟨hmove, hstays, heq⟩
  · rw [heq]
    dsimp only
    rw [FixedStep.loop, cursor_move x t.host hsite]
    exact measured_move h hmeasured hsite dx dy
  · rw [heq]
    dsimp only
    have hturn := cursor_turn x desktop h.edge_eq s
    have hremote' : (loopStep x .exact desktop t.host (s.loop edge)).cursor.det.site = .remote := hremote
    generalize (loopStep x .exact desktop t.host (s.loop edge)).cursor = c' at hturn hremote'
    rcases hturn with _ | hsite | ⟨-, hdet, hdepth⟩ | hsite
    · exact absurd (hlocal.symm.trans hremote') (by simp)
    · exact absurd (hlocal.symm.trans hsite) (by simp)
    · intro _
      rw [sub_self, hdet]
      simp [beyondSeam]
    · exact absurd (hlocal.symm.trans hsite) (by simp)
  · rw [heq]
    dsimp only
    have hturn := cursor_turn x desktop h.edge_eq s
    have hstays' : t.host.cursor.det.site = .local →
        (loopStep x .exact desktop t.host (s.loop edge)).cursor.det.site = .local := hstays
    generalize (loopStep x .exact desktop t.host (s.loop edge)).cursor = c' at hturn hstays'
    rcases hturn with _ | hsite | ⟨hlocal, hdet, -⟩ | hsite
    · exact hmeasured
    · intro hremote
      cases hremote
    · intro hremote
      exact absurd ((hstays' hlocal).symm.trans hremote) (by simp)
    · exact absurd rfl (hmove hsite _ _ _ _)

theorem measured_after (x : Crates) (desktop : Rect) (edge : ScreenEdge) (hysteresis : Int) (rt : RealtimeCrypto)
    (steps : List FixedStep) :
    let t := (start edge hysteresis rt).after x desktop edge steps
    Measured desktop edge t.host.cursor t.moves t.since := by
  induction steps using List.reverseRecOn with
  | nil =>
    show Measured desktop edge (HostInput.start edge hysteresis rt).cursor [] 0
    intro hremote
    cases hremote
  | append_singleton steps s ih =>
    rw [after_snoc]
    have hsteady : ((start edge hysteresis rt).after x desktop edge steps).host.cursor.Steady desktop edge
        hysteresis := by
      rw [after_host]
      exact steady_run x desktop edge hysteresis rt steps
    exact measured_step hsteady ih s

end SeamRun

open SeamRun in
/-- For every run with a fixed edge setting: a move sends control home only if what the clamp at the seam has taken away
of the current streak is at least the hysteresis, iff no push completes the hysteresis with pixels by which the streak
has moved the cursor. -/
theorem seam_pressure_iff (x : Crates) (desktop : Rect) (edge : ScreenEdge) (hysteresis : Int) (rt : RealtimeCrypto)
    (steps : List FixedStep) :
    let after := (start edge hysteresis rt).after x desktop edge
    (∀ front dx dy absX absY back, steps = front ++ .poll (some (.move dx dy absX absY)) :: back →
        (after front).host.det.site = .remote →
        (after (front ++ [.poll (some (.move dx dy absX absY))])).host.det.site = .local →
        ((max hysteresis 1 : Int) : ℚ) ≤
          beyondSeam ((after front).host.cursor.seamMove desktop edge dx dy :: (after front).moves)) ↔
      ∀ front dx dy absX absY back, steps = front ++ .poll (some (.move dx dy absX absY)) :: back →
        ¬ (after front).Inward desktop edge dx dy := by
  dsimp only
  refine forall_congr' fun front => forall_congr' fun dx => forall_congr' fun dy => forall_congr' fun absX =>
    forall_congr' fun absY => forall_congr' fun back => imp_congr_right fun _ => ?_
  have hmeasured := measured_after x desktop edge hysteresis rt front
  have hsteady : ((start edge hysteresis rt).after x desktop edge front).host.cursor.Steady desktop edge hysteresis := by
    rw [after_host]
    exact steady_run x desktop edge hysteresis rt front
  rw [after_snoc, step_host]
  generalize (start edge hysteresis rt).after x desktop edge front = t at *
  dsimp only at hmeasured
  by_cases hsite : t.host.det.site = .remote
  swap
  · exact iff_of_true (fun hremote => absurd hremote hsite) fun hin => hsite hin.1
  have hdet : (loopStep x .exact desktop t.host (.poll (some (.move dx dy absX absY)) edge)).det = _ :=
    (congrArg VirtualCursor.det (cursor_move x t.host hsite dx dy absX absY)).trans
      (det_moves desktop hsite hsteady.edge_eq dx dy)
  have hhyst := hsteady.hysteresis_eq
  rw [FixedStep.loop, hdet]
  constructor
  · rintro hall ⟨-, hpush, hreach, hshort⟩
    rw [if_pos hpush, if_pos hreach] at hall
    have hcons := beyondSeam_cons hsteady hmeasured hsite hpush
    have henough := hall hsite rfl
    rw [← hhyst] at henough
    push_cast at hshort
    linarith
  · intro hnot _ hlocal
    split_ifs at hlocal with hpush hreach
    · have hcons := beyondSeam_cons hsteady hmeasured hsite hpush
      by_contra hfew
      refine hnot ⟨hsite, hpush, hreach, ?_⟩
      rw [← hhyst] at hfew
      push_cast at hfew ⊢
      linarith
    · exact absurd (hlocal.symm.trans hsite) (by simp)
    · exact absurd (hlocal.symm.trans hsite) (by simp)

/-- One fast move from the middle of the remote just reaches the seam, and control is local: nothing of it was clamped. -/
theorem middle_returns :
    let after := (SeamRun.start .right 25 (RealtimeCrypto.new (Vector.replicate 32 7) 1 true)).after shiftCrates
      ⟨0, 0, 1920, 1080⟩ .right
    (after toMiddle).host.det.site = .remote ∧
      (after (toMiddle ++ [.poll (some (.move (-960) 0 1919 540))])).host.det.site = .local ∧
      beyondSeam ((after toMiddle).host.cursor.seamMove ⟨0, 0, 1920, 1080⟩ .right (-960) 0 :: (after toMiddle).moves) =
        0 := by
  decide +kernel

end ScreenLink
