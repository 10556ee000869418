import ScreenLink.Input.Cursor
import ScreenLink.Input.HeldKeys

/-!
# Back through the seam

The loop with a fixed edge setting and exact arithmetic. A move that reaches the seam counts in full toward the
hysteresis, the part that took the cursor there as well. So a user who keeps moving toward home always comes home
(`never_trapped`), and control may return on less pressure beyond the seam than the hysteresis asks for
(`seam_pressure_iff`).
-/

namespace ScreenLink

/-- A step of the loop while the edge setting stays what it is. -/
inductive FixedStep
  | head (snapUi : Bool)
  | poll (captured : Option CapturedEvent)
  deriving DecidableEq

namespace FixedStep

def loop (edge : ScreenEdge) : FixedStep → LoopStep
  | .head snapUi => .head edge snapUi
  | .poll captured => .poll captured edge

/-- How far the captured move goes toward home. -/
def homeward (edge : ScreenEdge) : FixedStep → Int
  | .poll (some (.move dx dy _ _)) => edge.home dx dy
  | _ => 0

end FixedStep

/-- The loop after these steps. -/
def fixedRun (x : Crates) (desktop : Rect) (edge : ScreenEdge) (h : HostInput) (steps : List FixedStep) : HostInput :=
  hostRun x .exact desktop h (steps.map (FixedStep.loop edge))

namespace VirtualCursor

variable {desktop : Rect} {edge : ScreenEdge} {c c' : VirtualCursor}

/-! ### One step -/

/-- A step leaves the cursor, brings control home on request, crosses at the seam, or moves the cursor and counts the
pressure. -/
inductive Turn (desktop : Rect) (edge : ScreenEdge) (c : VirtualCursor) : FixedStep → VirtualCursor → Prop
  | keeps {step : FixedStep} (hmove : c.det.site = .remote → ∀ dx dy absX absY,
      step ≠ .poll (some (.move dx dy absX absY))) : Turn desktop edge c step c
  | snaps {snapUi : Bool} (hsite : c.det.site = .remote) :
      Turn desktop edge c (.head snapUi) { c with det := { c.det with site := .local, backPush := 0 } }
  | crosses {dx dy absX absY : Int} {c' : VirtualCursor} (hsite : c.det.site = .local)
      (hdet : c'.det = { c.det with site := .remote, backPush := 0 }) (hdepth : c'.depth edge = 0) :
      Turn desktop edge c (.poll (some (.move dx dy absX absY))) c'
  | moves {dx dy absX absY : Int} (hsite : c.det.site = .remote) :
      Turn desktop edge c (.poll (some (.move dx dy absX absY)))
        ((c.move .exact desktop dx dy).pressReturn .exact dx dy edge)

theorem depth_entry (edge : ScreenEdge) (det : EdgeDetector) (entryNorm : F32) :
    (VirtualCursor.mk det (entryPoint edge entryNorm).1 (entryPoint edge entryNorm).2).depth edge = 0 := by
  cases edge <;> simp [depth, entryPoint]

theorem head_turn (hedge : c.det.edge = edge) (snapUi asked : Bool) :
    Turn desktop edge c (.head snapUi) (c.head edge asked) := by
  have hset : c.det.setEdge edge = c.det := by
    rw [← hedge]
    rfl
  simp only [head, hset]
  split_ifs
  · rcases c.det.forceHome_cases with ⟨hsite, heq⟩ | ⟨hsite, heq⟩
    · rw [heq]
      exact .snaps hsite
    · rw [heq]
      exact .keeps (by simp)
  · exact .keeps (by simp)

theorem poll_turn (desktop : Rect) (edge : ScreenEdge) (c : VirtualCursor) (captured : Option CapturedEvent) :
    Turn desktop edge c (.poll captured) (c.poll .exact desktop captured edge) := by
  rcases captured with _ | (⟨dx, dy, absX, absY⟩ | ev)
  · exact .keeps (by simp)
  · unfold poll
    cases hsite : c.det.site with
    | «local» =>
      simp only [moveLocal]
      rcases c.det.updateLocal_eq .exact absX absY desktop with heq | ⟨-, entryNorm, heq⟩
      · simp only [heq]
        exact .keeps fun hremote => absurd (hsite.symm.trans hremote) (by simp)
      · simp only [heq]
        exact .crosses hsite rfl (depth_entry _ _ _)
    | remote => exact .moves hsite
  · exact .keeps (by simp)

theorem depth_pressReturn (ar : Arith) (c : VirtualCursor) (dx dy : Int) (edgeNow : ScreenEdge) :
    (c.pressReturn ar dx dy edgeNow).depth edge = c.depth edge := by
  cases edge <;> rfl

theorem det_moves (desktop : Rect) (hsite : c.det.site = .remote) (hedge : c.det.edge = edge) (dx dy : Int) :
    ((c.move .exact desktop dx dy).pressReturn .exact dx dy edge).det =
      if (c.delta .exact desktop dx dy edge).pushes edge = true then
        if c.det.hysteresis ≤ c.det.backPush + edge.home dx dy then { c.det with site := .local, backPush := 0 }
        else { c.det with backPush := c.det.backPush + edge.home dx dy }
      else { c.det with backPush := 0 } := by
  subst hedge
  exact c.det.updateRemote_det id (c.delta .exact desktop dx dy c.det.edge) hsite

/-- What is known of the cursor throughout: while there is pressure it is pinned at the seam. -/
structure Steady (desktop : Rect) (edge : ScreenEdge) (hysteresis : Int) (c : VirtualCursor) : Prop where
  edge_eq : c.det.edge = edge
  hysteresis_eq : c.det.hysteresis = max hysteresis 1
  depth_mem : 0 ≤ c.depth edge ∧ c.depth edge ≤ 1
  counter_mem : 0 ≤ c.det.backPush ∧ c.det.backPush < max hysteresis 1
  pinned : 0 < c.det.backPush → c.toSeam desktop edge ≤ edge.span desktop / 10000

variable {hysteresis : Int} {step : FixedStep}

theorem Steady.toSeam_mem (h : c.Steady desktop edge hysteresis) :
    0 ≤ c.toSeam desktop edge ∧ c.toSeam desktop edge ≤ edge.span desktop := by
  have hspan := span_pos_rat edge desktop
  exact ⟨mul_nonneg h.depth_mem.1 hspan.le, mul_le_of_le_one_left hspan.le h.depth_mem.2⟩

theorem pushes_delta_iff (desktop : Rect) (edge : ScreenEdge) (c : VirtualCursor) (dx dy : Int) :
    (c.delta .exact desktop dx dy edge).pushes edge = true ↔
      (c.move .exact desktop dx dy).toSeam desktop edge ≤ edge.span desktop / 10000 ∧ 0 < edge.home dx dy := by
  rw [RemoteDelta.pushes_iff, ← atReturnEdge_iff]
  rfl

theorem max_pos (hysteresis : Int) : 0 < max hysteresis 1 := lt_of_lt_of_le Int.one_pos (le_max_right _ _)

theorem steady_turn (h : c.Steady desktop edge hysteresis) (hturn : Turn desktop edge c step c') :
    c'.Steady desktop edge hysteresis := by
  rcases hturn with _ | _ | ⟨hsite, hdet, hdepth⟩ | ⟨hsite⟩
  · exact h
  · refine ⟨h.edge_eq, h.hysteresis_eq, ?_, ⟨le_rfl, max_pos hysteresis⟩, fun hpos => absurd hpos (lt_irrefl 0)⟩
    cases edge <;> exact h.depth_mem
  · refine ⟨?_, ?_, by rw [hdepth]; exact ⟨le_rfl, zero_le_one⟩, ?_, ?_⟩
    · rw [hdet]
      exact h.edge_eq
    · rw [hdet]
      exact h.hysteresis_eq
    · rw [hdet]
      exact ⟨le_rfl, max_pos hysteresis⟩
    · rw [hdet]
      exact fun hpos => absurd hpos (lt_irrefl 0)
  · rename_i dx dy absX absY
    have hdepth : ((c.move .exact desktop dx dy).pressReturn .exact dx dy edge).depth edge =
        (c.move .exact desktop dx dy).depth edge := depth_pressReturn _ _ _ _ _
    have hseam : ((c.move .exact desktop dx dy).pressReturn .exact dx dy edge).toSeam desktop edge =
        (c.move .exact desktop dx dy).toSeam desktop edge := by rw [toSeam, hdepth, toSeam]
    have hdet := det_moves desktop hsite h.edge_eq dx dy
    generalize (c.move .exact desktop dx dy).pressReturn .exact dx dy edge = c' at hdepth hseam hdet
    have hmem : 0 ≤ c'.depth edge ∧ c'.depth edge ≤ 1 := by
      rw [hdepth, depth_move]
      exact clamp01_mem _
    have hquiet : ∀ det : EdgeDetector, c'.det = det → det.edge = edge → det.hysteresis = max hysteresis 1 →
        det.backPush = 0 → c'.Steady desktop edge hysteresis := by
      rintro det hdet hedge hhyst hzero
      refine ⟨hdet ▸ hedge, hdet ▸ hhyst, hmem, ?_, fun hpos => ?_⟩
      · rw [hdet, hzero]
        exact ⟨le_rfl, max_pos hysteresis⟩
      · rw [hdet, hzero] at hpos
        exact absurd hpos (lt_irrefl 0)
    split_ifs at hdet with hpush hreach
    · exact hquiet _ hdet h.edge_eq h.hysteresis_eq rfl
    · obtain ⟨hpinned, hhome⟩ := (pushes_delta_iff desktop edge c dx dy).mp hpush
      rw [Int.not_le, h.hysteresis_eq] at hreach
      refine ⟨by rw [hdet]; exact h.edge_eq, by rw [hdet]; exact h.hysteresis_eq, hmem, ?_, fun _ => hseam ▸ hpinned⟩
      rw [hdet]
      exact ⟨Int.add_nonneg h.counter_mem.1 hhome.le, hreach⟩
    · exact hquiet _ hdet h.edge_eq h.hysteresis_eq rfl

end VirtualCursor

/-! ### Whole runs -/

open VirtualCursor

variable {x : Crates} {desktop : Rect} {edge : ScreenEdge} {hysteresis : Int} {rt : RealtimeCrypto} {h : HostInput}

theorem fixedRun_snoc (h : HostInput) (steps : List FixedStep) (step : FixedStep) :
    fixedRun x desktop edge h (steps ++ [step]) =
      loopStep x .exact desktop (fixedRun x desktop edge h steps) (step.loop edge) := by
  rw [fixedRun, List.map_append, List.map_singleton, hostRun_snoc, fixedRun]

theorem cursor_turn (x : Crates) (desktop : Rect) (hedge : h.det.edge = edge) (step : FixedStep) :
    Turn desktop edge h.cursor step (loopStep x .exact desktop h (step.loop edge)).cursor := by
  cases step with
  | head snapUi =>
    show Turn desktop edge h.cursor (.head snapUi) (hostHead x h edge snapUi).cursor
    rw [HostInput.cursor_hostHead]
    exact head_turn hedge snapUi _
  | poll captured =>
    show Turn desktop edge h.cursor (.poll captured) (hostPoll x .exact desktop h captured edge).cursor
    rw [HostInput.cursor_hostPoll]
    exact poll_turn desktop edge h.cursor captured

theorem steady_start : (HostInput.start edge hysteresis rt).cursor.Steady desktop edge hysteresis := by
  refine ⟨rfl, rfl, ?_, ⟨le_rfl, max_pos hysteresis⟩, fun hpos => absurd hpos (lt_irrefl 0)⟩
  cases edge <;> simp [HostInput.cursor, HostInput.start, depth] <;> norm_num

theorem steady_run (x : Crates) (desktop : Rect) (edge : ScreenEdge) (hysteresis : Int) (rt : RealtimeCrypto)
    (steps : List FixedStep) :
    (fixedRun x desktop edge (.start edge hysteresis rt) steps).cursor.Steady desktop edge hysteresis := by
  induction steps using List.reverseRecOn with
  | nil => exact steady_start
  | append_singleton steps step ih =>
    rw [fixedRun_snoc]
    exact steady_turn ih (cursor_turn x desktop ih.edge_eq step)

/-! ### Coming home -/

/-- Control is remote after moves of `dist` pixels toward home: those that were not counted as pressure do not add up to
the desktop's extent, and have brought the cursor nearer to the seam. -/
structure Approaching (desktop : Rect) (edge : ScreenEdge) (dist : Int) (c : VirtualCursor) : Prop where
  site : c.det.site = .remote
  counted : dist ≤ max (edge.extent desktop) 0 + c.det.backPush
  nearer : (dist : ℚ) + c.toSeam desktop edge ≤ edge.span desktop + c.det.backPush

theorem homeward_of_ne_move {step : FixedStep} (hstep : ∀ dx dy absX absY, step ≠ .poll (some (.move dx dy absX absY))) :
    step.homeward edge = 0 := by
  rcases step with snapUi | (_ | (⟨dx, dy, absX, absY⟩ | ev))
  · rfl
  · rfl
  · exact absurd rfl (hstep dx dy absX absY)
  · rfl

theorem approaching_turn {c c' : VirtualCursor} {step : FixedStep} {dist : Int} (h : c.Steady desktop edge hysteresis)
    (happr : Approaching desktop edge dist c) (hturn : Turn desktop edge c step c')
    (hhome : ∀ dx dy absX absY, step = .poll (some (.move dx dy absX absY)) → 0 < edge.home dx dy) :
    c'.det.site = .local ∨ Approaching desktop edge (dist + step.homeward edge) c' := by
  obtain ⟨hsite, hcounted, hnearer⟩ := happr
  rcases hturn with hmove | _ | ⟨hlocal, -, -⟩ | _
  · rw [homeward_of_ne_move (hmove hsite), Int.add_zero]
    exact Or.inr ⟨hsite, hcounted, hnearer⟩
  · exact Or.inl rfl
  · exact absurd (hlocal.symm.trans hsite) (by simp)
  · rename_i dx dy absX absY _
    have hpos : 0 < edge.home dx dy := hhome dx dy absX absY rfl
    have hposQ : (0 : ℚ) < edge.home dx dy := Int.cast_pos.mpr hpos
    have hdet := det_moves desktop hsite h.edge_eq dx dy
    have hpush := pushes_delta_iff desktop edge c dx dy
    have hseam : ((c.move .exact desktop dx dy).pressReturn .exact dx dy edge).toSeam desktop edge =
        max 0 (min (edge.span desktop : ℚ) (c.toSeam desktop edge - edge.home dx dy)) := by
      rw [toSeam, depth_pressReturn, ← toSeam, toSeam_move]
    rw [toSeam_move] at hpush
    generalize (c.move .exact desktop dx dy).pressReturn .exact dx dy edge = c' at hdet hseam ⊢
    rw [← hseam] at hpush
    have hle : c'.toSeam desktop edge ≤ c.toSeam desktop edge := by
      rw [hseam]
      exact max_le h.toSeam_mem.1 ((min_le_right _ _).trans (by linarith))
    show c'.det.site = .local ∨ Approaching desktop edge (dist + edge.home dx dy) c'
    split_ifs at hdet with hcounts hreach
    · exact Or.inl (by rw [hdet])
    · refine Or.inr ⟨by rw [hdet]; exact hsite, ?_, ?_⟩
      · rw [hdet]
        dsimp only
        omega
      · rw [hdet]
        push_cast
        linarith
    · have hfar : (edge.span desktop : ℚ) / 10000 < c'.toSeam desktop edge := by
        by_contra hnear
        exact hcounts (hpush.mpr ⟨not_lt.mp hnear, hpos⟩)
      have hspan := span_pos_rat edge desktop
      have hzero : c.det.backPush = 0 := by
        by_contra hne
        have hpinned := h.pinned (lt_of_le_of_ne h.counter_mem.1 (Ne.symm hne))
        linarith
      have hfree : c'.toSeam desktop edge ≤ c.toSeam desktop edge - edge.home dx dy := by
        rw [hseam] at hfar ⊢
        rcases le_max_iff.mp (le_refl (max (0 : ℚ) _)) with hle0 | hle1
        · linarith
        · exact hle1.trans (min_le_right _ _)
      rw [hzero] at hnearer
      have hnext : ((dist + edge.home dx dy : Int) : ℚ) + c'.toSeam desktop edge ≤ edge.span desktop := by
        push_cast at hnearer ⊢
        linarith
      refine Or.inr ⟨by rw [hdet]; exact hsite, ?_, ?_⟩
      · have hlt : ((dist + edge.home dx dy : Int) : ℚ) < (edge.span desktop : Int) := by linarith
        have hlt' := Int.cast_lt.mp hlt
        rw [hdet]
        simp only [ScreenEdge.span] at hlt'
        show dist + edge.home dx dy ≤ max (edge.extent desktop) 0 + 0
        omega
      · rw [hdet]
        simpa using hnext

/-- From every reachable state with control remote: captured moves that all go toward home on the crossing axis, and
together at least the desktop's extent and the hysteresis, bring control home by the last of them, whatever else happens
between them. -/
theorem never_trapped (x : Crates) (desktop : Rect) (edge : ScreenEdge) (hysteresis : Int) (rt : RealtimeCrypto)
    (front steps : List FixedStep)
    (hsite : (fixedRun x desktop edge (.start edge hysteresis rt) front).det.site = .remote)
    (hhome : ∀ dx dy absX absY, .poll (some (.move dx dy absX absY)) ∈ steps → 0 < edge.home dx dy)
    (hdist : max (edge.extent desktop) 0 + max hysteresis 1 ≤ (steps.map (FixedStep.homeward edge)).sum) :
    ∃ earlier later, steps = earlier ++ later ∧
      (fixedRun x desktop edge (.start edge hysteresis rt) (front ++ earlier)).det.site = .local := by
  have hsteady := steady_run x desktop edge hysteresis rt
  have hprogress : ∀ done rest, steps = done ++ rest →
      (∃ earlier later, steps = earlier ++ later ∧
        (fixedRun x desktop edge (.start edge hysteresis rt) (front ++ earlier)).det.site = .local) ∨
      Approaching desktop edge (done.map (FixedStep.homeward edge)).sum
        (fixedRun x desktop edge (.start edge hysteresis rt) (front ++ done)).cursor := by
    intro done
    induction done using List.reverseRecOn with
    | nil =>
      intro rest _
      have hstart := hsteady front
      rw [List.append_nil]
      refine Or.inr ⟨hsite, Int.add_nonneg (le_max_right _ _) hstart.counter_mem.1, ?_⟩
      have hcounter : (0 : ℚ) ≤ (fixedRun x desktop edge (.start edge hysteresis rt) front).cursor.det.backPush :=
        Int.cast_nonneg hstart.counter_mem.1
      have hmem := hstart.toSeam_mem.2
      simp only [List.map_nil, List.sum_nil, Int.cast_zero]
      linarith
    | append_singleton done step ih =>
      intro rest hsplit
      rw [List.append_assoc, List.singleton_append] at hsplit
      rcases ih (step :: rest) hsplit with hhomed | happr
      · exact Or.inl hhomed
      · have hturn := cursor_turn x desktop (hsteady (front ++ done)).edge_eq step
        rw [← fixedRun_snoc, List.append_assoc] at hturn
        rcases approaching_turn (hsteady (front ++ done)) happr hturn
          (fun dx dy absX absY heq => hhome dx dy absX absY (by rw [hsplit, ← heq]; simp)) with hlocal | hnext
        · exact Or.inl ⟨done ++ [step], rest, by rw [hsplit, List.append_assoc, List.singleton_append], hlocal⟩
        · rw [List.map_append, List.sum_append, List.map_singleton, List.sum_singleton]
          exact Or.inr hnext
  rcases hprogress steps [] (List.append_nil steps).symm with hhomed | happr
  · exact hhomed
  · have hbelow := (hsteady (front ++ steps)).counter_mem.2
    have hcounted := happr.counted
    omega

/-- The cursor crosses the right edge, and goes on to the middle of the remote. -/
def toMiddle : List FixedStep := [.poll (some (.move 5 0 1919 540)), .poll (some (.move 960 0 1919 540))]

/-- 1945 pixels back in two moves, with other motion on them. -/
def wayBack : List FixedStep :=
  [.poll (some (.move (-1000) 7 1919 540)), .poll none, .poll (some (.move (-945) (-9) 1919 540))]

theorem never_trapped_wayBack : ∃ earlier later, wayBack = earlier ++ later ∧
    (fixedRun shiftCrates ⟨0, 0, 1920, 1080⟩ .right (.start .right 25 (RealtimeCrypto.new (Vector.replicate 32 7) 1 true))
      (toMiddle ++ earlier)).det.site = .local := by
  refine never_trapped shiftCrates ⟨0, 0, 1920, 1080⟩ .right 25 _ toMiddle wayBack (by decide +kernel) ?_ (by decide)
  intro dx dy absX absY hmem
  simp only [wayBack, List.mem_cons, FixedStep.poll.injEq, Option.some.injEq, CapturedEvent.move.injEq] at hmem
  rcases hmem with ⟨rfl, -⟩ | h | ⟨rfl, -⟩ | h
  · exact Int.neg_pos_of_neg (by decide)
  · cases h
  · exact Int.neg_pos_of_neg (by decide)
  · cases h

end ScreenLink
