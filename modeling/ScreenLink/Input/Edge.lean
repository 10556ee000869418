import ScreenLink.Core.Protocol

/-!
# The edge detector

`edge.rs`: when control crosses to the remote screen and back. `Arith` says what an `i32` operation does outside
the range and how an `f32` operation rounds; every result holds for any choice of the two.
-/

namespace ScreenLink

/-- The arithmetic of the platform: an exact `i32` or `f32` result, as the machine returns it. -/
structure Arith where
  i32 : Int → Int
  f32 : ℚ → F32

/-- No operation overflows or rounds. -/
def Arith.exact : Arith := ⟨id, id⟩

/-- A pixel rectangle. -/
structure Rect where
  x : Int
  y : Int
  w : Int
  h : Int
  deriving DecidableEq

/-- Where control currently lives. -/
inductive ControlSite
  | «local»
  | remote
  deriving DecidableEq

inductive Transition
  | toRemote (entryNorm : F32)
  | toLocal
  deriving DecidableEq

/-- Detects edge crossings with hysteresis. -/
structure EdgeDetector where
  edge : ScreenEdge
  hysteresis : Int
  site : ControlSite
  backPush : Int
  deriving DecidableEq

/-- `f32::clamp(0.0, 1.0)` -/
def clamp01 (v : F32) : F32 := if v < 0 then 0 else if 1 < v then 1 else v

def norm (ar : Arith) (v span : Int) : F32 :=
  if span ≤ 0 then 1 / 2 else clamp01 (ar.f32 (ar.f32 v / ar.f32 span))

namespace EdgeDetector

def new (edge : ScreenEdge) (hysteresis : Int) : EdgeDetector where
  edge := edge
  hysteresis := max hysteresis 1
  site := .local
  backPush := 0

def setEdge (d : EdgeDetector) (edge : ScreenEdge) : EdgeDetector := { d with edge := edge }

/-- Force control back to the local machine (the snap-home path). -/
def forceHome (d : EdgeDetector) : EdgeDetector × Option Transition :=
  if d.site = .remote then ({ d with site := .local, backPush := 0 }, some .toLocal) else (d, none)

/-- A cursor position while control is local. -/
def updateLocal (ar : Arith) (d : EdgeDetector) (cx cy : Int) (screen : Rect) : EdgeDetector × Option Transition :=
  if d.site ≠ .local then (d, none)
  else
    let atEdge := match d.edge with
      | .left => decide (cx ≤ screen.x)
      | .right => decide (ar.i32 (ar.i32 (screen.x + screen.w) - 1) ≤ cx)
      | .top => decide (cy ≤ screen.y)
      | .bottom => decide (ar.i32 (ar.i32 (screen.y + screen.h) - 1) ≤ cy)
    if !atEdge then (d, none)
    else
      let entryNorm := match d.edge with
        | .left | .right => norm ar (ar.i32 (cy - screen.y)) screen.h
        | .top | .bottom => norm ar (ar.i32 (cx - screen.x)) screen.w
      ({ d with site := .remote, backPush := 0 }, some (.toRemote entryNorm))

/-- A mouse delta while control is remote; only pressure into the pinned return edge counts. -/
def updateRemote (ar : Arith) (d : EdgeDetector) (dx dy : Int) (atReturnEdge : Bool) :
    EdgeDetector × Option Transition :=
  if d.site ≠ .remote then (d, none)
  else
    let intoDelta := match d.edge with
      | .right => dx
      | .left => ar.i32 (-dx)
      | .bottom => dy
      | .top => ar.i32 (-dy)
    if atReturnEdge ∧ intoDelta < 0 then
      let backPush := ar.i32 (d.backPush + ar.i32 (-intoDelta))
      if d.hysteresis ≤ backPush then ({ d with site := .local, backPush := 0 }, some .toLocal)
      else ({ d with backPush := backPush }, none)
    else ({ d with backPush := 0 }, none)

/-! ### What a call does to the site -/

theorem forceHome_cases (d : EdgeDetector) :
    (d.site = .remote ∧ d.forceHome = ({ d with site := .local, backPush := 0 }, some .toLocal)) ∨
      (d.site = .local ∧ d.forceHome = (d, none)) := by
  unfold forceHome
  cases h : d.site with
  | «local» => exact Or.inr ⟨rfl, by simp⟩
  | remote => exact Or.inl ⟨rfl, by simp⟩

theorem updateLocal_cases (ar : Arith) (d : EdgeDetector) (cx cy : Int) (screen : Rect) (hsite : d.site = .local) :
    (∃ det entryNorm, d.updateLocal ar cx cy screen = (det, some (.toRemote entryNorm)) ∧ det.site = .remote) ∨
      d.updateLocal ar cx cy screen = (d, none) := by
  unfold updateLocal
  simp only [hsite, ne_eq, not_true_eq_false, if_false]
  split_ifs
  · exact Or.inr rfl
  · exact Or.inl ⟨_, _, rfl, rfl⟩

theorem updateRemote_cases (ar : Arith) (d : EdgeDetector) (dx dy : Int) (atReturnEdge : Bool)
    (hsite : d.site = .remote) :
    (∃ det, d.updateRemote ar dx dy atReturnEdge = (det, some .toLocal) ∧ det.site = .local) ∨
      (∃ det, d.updateRemote ar dx dy atReturnEdge = (det, none) ∧ det.site = .remote) := by
  unfold updateRemote
  simp only [hsite, ne_eq, not_true_eq_false, if_false]
  split_ifs
  · exact Or.inl ⟨_, rfl, rfl⟩
  · exact Or.inr ⟨_, rfl, rfl⟩
  · exact Or.inr ⟨_, rfl, rfl⟩

end EdgeDetector

end ScreenLink
