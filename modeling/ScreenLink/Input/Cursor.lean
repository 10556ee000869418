import Mathlib.Algebra.Order.Field.Basic
import Mathlib.Algebra.Order.Ring.Rat
import Mathlib.Tactic.Linarith
import Mathlib.Tactic.FieldSimp
import ScreenLink.Input.Pressure
import ScreenLink.Input.Turns

/-!
# The detector and the virtual cursor

What a step of the loop does to the detector and to the cursor on the remote depends on nothing else but whether it is
asked to snap home (`cursor_hostHead`, `cursor_hostPoll`). With exact arithmetic a delta toward home takes the cursor
that many pixels nearer to the seam, as far as the seam itself (`toSeam_move`).
-/

namespace ScreenLink

/-- The detector, and the position of the cursor on the remote. -/
structure VirtualCursor where
  det : EdgeDetector
  vrx : F32
  vry : F32
  deriving DecidableEq

def HostInput.cursor (h : HostInput) : VirtualCursor := ⟨h.det, h.vrx, h.vry⟩

namespace VirtualCursor

def move (ar : Arith) (desktop : Rect) (c : VirtualCursor) (dx dy : Int) : VirtualCursor :=
  let invW := ar.f32 (1 / ar.f32 (max desktop.w 1))
  let invH := ar.f32 (1 / ar.f32 (max desktop.h 1))
  { c with
    vrx := clamp01 (ar.f32 (c.vrx + ar.f32 (ar.f32 dx * invW)))
    vry := clamp01 (ar.f32 (c.vry + ar.f32 (ar.f32 dy * invH))) }

/-- A delta, as `update_remote` gets it while the edge setting is `edgeNow`. -/
def delta (ar : Arith) (desktop : Rect) (c : VirtualCursor) (dx dy : Int) (edgeNow : ScreenEdge) : RemoteDelta :=
  let c := c.move ar desktop dx dy
  ⟨dx, dy, HostInput.atReturnEdge ar edgeNow c.vrx c.vry⟩

def head (c : VirtualCursor) (edge : ScreenEdge) (asked : Bool) : VirtualCursor :=
  let det := c.det.setEdge edge
  { c with det := if asked then det.forceHome.1 else det }

def moveLocal (ar : Arith) (desktop : Rect) (c : VirtualCursor) (absX absY : Int) (edgeNow : ScreenEdge) :
    VirtualCursor :=
  match c.det.updateLocal ar absX absY desktop with
  | (det, some (.toRemote entryNorm)) => ⟨det, (entryPoint edgeNow entryNorm).1, (entryPoint edgeNow entryNorm).2⟩
  | (det, _) => { c with det := det }

def pressReturn (ar : Arith) (c : VirtualCursor) (dx dy : Int) (edgeNow : ScreenEdge) : VirtualCursor :=
  { c with det := (c.det.updateRemote ar dx dy (HostInput.atReturnEdge ar edgeNow c.vrx c.vry)).1 }

def poll (ar : Arith) (desktop : Rect) (c : VirtualCursor) (captured : Option CapturedEvent) (edgeNow : ScreenEdge) :
    VirtualCursor :=
  match captured with
  | some (.move dx dy absX absY) => match c.det.site with
    | .local => c.moveLocal ar desktop absX absY edgeNow
    | .remote => (c.move ar desktop dx dy).pressReturn ar dx dy edgeNow
  | _ => c

end VirtualCursor

namespace HostInput

variable {x : Crates} {ar : Arith} {desktop : Rect} {h h' : HostInput} {ds : List Deed}

theorem Does.cursor (hdoes : Does h ds h') : h'.cursor = h.cursor := by
  obtain ⟨rt, sealed, out, rfl, -⟩ := hdoes
  rfl

theorem cursor_hostHead (x : Crates) (h : HostInput) (edge : ScreenEdge) (snapUi : Bool) :
    (hostHead x h edge snapUi).cursor = h.cursor.head edge (h.snapHome || snapUi) := by
  have hturn := hostHead_turn x h edge snapUi
  generalize hostHead x h edge snapUi = h' at hturn
  rcases hturn with hkeep | ⟨hsite, hasked, hsent, hdoes⟩
  · simp only [HostInput.cursor, VirtualCursor.head]
    rcases hkeep with hlocal | hnot
    · rcases EdgeDetector.forceHome_cases (h.det.setEdge edge) with ⟨hremote, -⟩ | ⟨-, heq⟩
      · exact absurd (hlocal.symm.trans hremote) (by simp)
      · rw [heq, ite_self]
    · rw [if_neg (by simp [hnot])]
  · rw [hdoes.cursor]
    simp only [HostInput.cursor, VirtualCursor.head]
    rw [if_pos hasked]

theorem cursor_moveLocal (x : Crates) (ar : Arith) (desktop : Rect) (h : HostInput) (absX absY : Int)
    (edgeNow : ScreenEdge) :
    (h.moveLocal x ar desktop absX absY edgeNow).cursor = h.cursor.moveLocal ar desktop absX absY edgeNow := by
  unfold moveLocal VirtualCursor.moveLocal
  rcases h.det.updateLocal_eq ar absX absY desktop with heq | ⟨hsite, entryNorm, heq⟩
  · simp only [HostInput.cursor, heq]
  · simp only [HostInput.cursor, heq]
    obtain ⟨ds, -, hseeded⟩ := does_seedAll x h.heldModsLocal
      ({ ({ h with det := { h.det with site := .remote, backPush := 0 } }.emit (.suppress true)).emit
          (.park absX absY) with
        vrx := (entryPoint edgeNow entryNorm).1, vry := (entryPoint edgeNow entryNorm).2 }.emit
        (.ctrl (.edgeEnter (entryPoint edgeNow entryNorm).1 (entryPoint edgeNow entryNorm).2)))
    exact hseeded.cursor

theorem cursor_pressReturn (x : Crates) (ar : Arith) (h : HostInput) (dx dy : Int) (edgeNow : ScreenEdge) :
    (h.pressReturn x ar dx dy edgeNow).cursor = h.cursor.pressReturn ar dx dy edgeNow := by
  unfold pressReturn VirtualCursor.pressReturn
  simp only [HostInput.cursor]
  rcases h.det.updateRemote ar dx dy (atReturnEdge ar edgeNow h.vrx h.vry) with ⟨det, _ | transition⟩
  · rfl
  · obtain ⟨ds, -, hhome⟩ := does_goHome x h det (.event (.controlOnRemote false))
    exact hhome.cursor

theorem cursor_moveRemote (x : Crates) (ar : Arith) (desktop : Rect) (h : HostInput) (dx dy : Int)
    (edgeNow : ScreenEdge) :
    (h.moveRemote x ar desktop dx dy edgeNow).cursor = (h.cursor.move ar desktop dx dy).pressReturn ar dx dy edgeNow := by
  obtain ⟨ds, -, hsent⟩ := does_sendRt x (h.moveVirtual ar desktop dx dy)
    (.mouseMoveAbs (h.moveVirtual ar desktop dx dy).vrx (h.moveVirtual ar desktop dx dy).vry)
  have hmoved : (h.moveVirtual ar desktop dx dy).cursor = h.cursor.move ar desktop dx dy := rfl
  rw [moveRemote, cursor_pressReturn, hsent.cursor, hmoved]

/-- A poll of the loop is a poll of the cursor. -/
theorem cursor_hostPoll (x : Crates) (ar : Arith) (desktop : Rect) (h : HostInput) (captured : Option CapturedEvent)
    (edgeNow : ScreenEdge) :
    (hostPoll x ar desktop h captured edgeNow).cursor = h.cursor.poll ar desktop captured edgeNow := by
  rcases captured with _ | (⟨dx, dy, absX, absY⟩ | ev)
  · rfl
  · unfold hostPoll VirtualCursor.poll
    cases hsite : h.det.site with
    | «local» =>
      have hsite' : h.cursor.det.site = .local := hsite
      simp only [hsite']
      exact cursor_moveLocal x ar desktop h absX absY edgeNow
    | remote =>
      have hsite' : h.cursor.det.site = .remote := hsite
      simp only [hsite']
      exact cursor_moveRemote x ar desktop h dx dy edgeNow
  · have hturn := hostPoll_turn x ar desktop h (some (.input ev)) edgeNow
    generalize hostPoll x ar desktop h (some (.input ev)) edgeNow = h' at hturn
    rcases hturn with _ | _ | _ | _ | _ | hchord | @⟨key, pressed, _, hchord, hsite⟩ |
      @⟨key, pressed, _, ds, _, hchord, hsite, hsent, hdoes⟩ | ⟨hev, hsite⟩ | ⟨hev, hsite, hsent, hdoes⟩
    · rfl
    · obtain ⟨mods, heq⟩ := h.exists_trackLocal key pressed
      rw [heq]
      rfl
    · obtain ⟨mods, heq⟩ := h.exists_trackLocal key pressed
      rw [hdoes.cursor, heq]
      rfl
    · rfl
    · rw [hdoes.cursor]
      rfl

end HostInput

/-! ### Pixels to the seam -/

theorem clamp01_eq (v : F32) : clamp01 v = max 0 (min 1 v) := by
  unfold clamp01
  split_ifs with hlow hhigh
  · rw [min_eq_right (hlow.le.trans zero_le_one), max_eq_left hlow.le]
  · rw [min_eq_left hhigh.le, max_eq_right zero_le_one]
  · rw [min_eq_right (not_lt.mp hhigh), max_eq_right (not_lt.mp hlow)]

theorem clamp01_mem (v : F32) : 0 ≤ clamp01 v ∧ clamp01 v ≤ 1 := by
  rw [clamp01_eq]
  exact ⟨le_max_left _ _, max_le zero_le_one (min_le_left _ _)⟩

theorem one_sub_clamp01 (v : F32) : 1 - clamp01 v = clamp01 (1 - v) := by
  unfold clamp01
  split_ifs <;> linarith

theorem clamp01_mul {s : ℚ} (hs : 0 < s) (p d : ℚ) : clamp01 (p - d * (1 / s)) * s = max 0 (min s (p * s - d)) := by
  have hmove : (p - d * (1 / s)) * s = p * s - d := by field_simp
  rw [clamp01_eq, max_mul_of_nonneg _ _ hs.le, min_mul_of_nonneg _ _ hs.le, zero_mul, one_mul, hmove]

/-- The desktop's extent on the axis on which the edge is crossed. -/
def ScreenEdge.extent (edge : ScreenEdge) (desktop : Rect) : Int :=
  match edge with
  | .left | .right => desktop.w
  | .top | .bottom => desktop.h

/-- The pixels of a move across the whole remote. -/
def ScreenEdge.span (edge : ScreenEdge) (desktop : Rect) : Int := max (edge.extent desktop) 1

theorem span_pos (edge : ScreenEdge) (desktop : Rect) : 0 < edge.span desktop :=
  lt_of_lt_of_le Int.one_pos (le_max_right _ _)

theorem span_pos_rat (edge : ScreenEdge) (desktop : Rect) : (0 : ℚ) < edge.span desktop :=
  Int.cast_pos.mpr (span_pos edge desktop)

namespace VirtualCursor

/-- How far the cursor is from the seam, from 0 to 1. -/
def depth (edge : ScreenEdge) (c : VirtualCursor) : ℚ :=
  match edge with
  | .right => c.vrx
  | .left => 1 - c.vrx
  | .bottom => c.vry
  | .top => 1 - c.vry

/-- The same, in pixels of the host. -/
def toSeam (desktop : Rect) (edge : ScreenEdge) (c : VirtualCursor) : ℚ := c.depth edge * edge.span desktop

variable {desktop : Rect} {edge : ScreenEdge} {c : VirtualCursor}

theorem depth_move (desktop : Rect) (edge : ScreenEdge) (c : VirtualCursor) (dx dy : Int) :
    (c.move .exact desktop dx dy).depth edge =
      clamp01 (c.depth edge - edge.home dx dy * (1 / (edge.span desktop : ℚ))) := by
  cases edge <;>
    simp only [depth, move, ScreenEdge.home, ScreenEdge.span, ScreenEdge.extent, Arith.exact, id, one_sub_clamp01,
      Int.cast_max, Int.cast_one, Int.cast_neg] <;>
    congr 1 <;> ring

theorem toSeam_move (desktop : Rect) (edge : ScreenEdge) (c : VirtualCursor) (dx dy : Int) :
    (c.move .exact desktop dx dy).toSeam desktop edge =
      max 0 (min (edge.span desktop : ℚ) (c.toSeam desktop edge - edge.home dx dy)) := by
  rw [toSeam, depth_move, clamp01_mul (span_pos_rat edge desktop), toSeam]

theorem atReturnEdge_iff (desktop : Rect) (edge : ScreenEdge) (c : VirtualCursor) :
    HostInput.atReturnEdge .exact edge c.vrx c.vry = true ↔ c.toSeam desktop edge ≤ edge.span desktop / 10000 := by
  have hspan := span_pos_rat edge desktop
  have hdepth : HostInput.atReturnEdge .exact edge c.vrx c.vry = true ↔ c.depth edge ≤ 1 / 10000 := by
    cases edge <;> refine decide_eq_true_iff.trans ?_ <;> simp only [depth, Arith.exact, id] <;> constructor <;>
      intro h <;> linarith
  rw [hdepth, toSeam, ← mul_one_div (edge.span desktop : ℚ), mul_comm, mul_le_mul_iff_right₀ hspan]

end VirtualCursor

end ScreenLink
