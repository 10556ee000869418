import ScreenLink.Core.Realtime
import ScreenLink.Input.Edge
import ScreenLink.Lib.HeldKeys
import ScreenLink.Session.Types

/-!
# The host input loop

`inputloop.rs`: one iteration of the loop (`hostIter`), built from `sendRt`, the two ways home, the crossing and
the relay. What other threads may change between two reads (the edge setting, the snap-home flag) and what the
capturer returns are the iteration's input, so a list of iterations is any interleaving with the UI.
-/

namespace ScreenLink

/-- Copies of each modifier press or release sent on an edge transition. -/
def MOD_SYNC_REPEAT : ℕ := 3

/-- Modifier state for the snap-home chord, Ctrl+Alt+Home. -/
structure HotkeyDetector where
  ctrl : Bool := false
  alt : Bool := false
  deriving DecidableEq

/-- Feed a key event; `true` when the chord has just been pressed. -/
def HotkeyDetector.onKey (d : HotkeyDetector) (key : Key) (pressed : Bool) : HotkeyDetector × Bool :=
  match key with
  | .controlLeft | .controlRight => ({ d with ctrl := pressed }, false)
  | .altLeft | .altRight => ({ d with alt := pressed }, false)
  | .home => (d, pressed && d.ctrl && d.alt)
  | _ => (d, false)

def isModifier : Key → Bool
  | .controlLeft | .controlRight | .altLeft | .altRight | .shiftLeft | .shiftRight | .metaLeft | .metaRight => true
  | _ => false

/-- The entry point on the remote desktop of a crossing at `along`. -/
def entryPoint (edge : ScreenEdge) (along : F32) : F32 × F32 :=
  match edge with
  | .right => (0, along)
  | .left => (1, along)
  | .bottom => (along, 0)
  | .top => (along, 1)

/-- What the capturer returns. -/
inductive CapturedEvent
  | move (dx dy absX absY : Int)
  | input (event : InputEvent)
  deriving DecidableEq

/-- What the loop does to the outside. -/
inductive HostOut
  /-- A packet to the peer, with the event sealed in it. -/
  | udp (event : InputEvent) (packet : Bytes)
  | ctrl (msg : ControlMsg)
  | event (event : NetEvent)
  | suppress (on : Bool)
  | park (x y : Int)
  deriving DecidableEq

/-- The loop's variables, and the record of what it has done. -/
structure HostInput where
  det : EdgeDetector
  hotkey : HotkeyDetector
  vrx : F32
  vry : F32
  heldModsLocal : List Key
  heldRemote : List Key
  rt : RealtimeCrypto
  snapHome : Bool
  out : List HostOut
  /-- History: the sequence number of each `seal` call. -/
  sealed : List (BitVec 64)

namespace HostInput

def start (edge : ScreenEdge) (hysteresis : Int) (rt : RealtimeCrypto) : HostInput where
  det := .new edge hysteresis
  hotkey := {}
  vrx := 1 / 2
  vry := 1 / 2
  heldModsLocal := []
  heldRemote := []
  rt := rt
  snapHome := false
  out := []
  sealed := []

def emit (h : HostInput) (o : HostOut) : HostInput := { h with out := h.out ++ [o] }

/-- Serialize, seal and send; a failure of either is ignored. -/
def sendRt (x : Crates) (h : HostInput) (ev : InputEvent) : HostInput :=
  match x.encodeInput ev with
  | none => h
  | some payload =>
    let (rt, res) := h.rt.seal x payload
    let h := { h with rt := rt, sealed := h.sealed ++ [h.rt.sendSeq] }
    match res with
    | .error _ => h
    | .ok packet => h.emit (.udp ev packet)

/-- `MOD_SYNC_REPEAT` copies of one key event. -/
def sendKeyRepeat (x : Crates) (h : HostInput) (key : Key) (pressed : Bool) : HostInput :=
  (List.replicate MOD_SYNC_REPEAT (InputEvent.key key pressed)).foldl (sendRt x) h

/-- Drain `heldRemote`, releasing each key on the peer. -/
def releaseHeld (x : Crates) (h : HostInput) : HostInput :=
  h.heldRemote.foldl (fun h key => h.sendKeyRepeat x key false) { h with heldRemote := [] }

/-- Snap home: clear the flag, and if control was remote bring it back. -/
def snap (x : Crates) (h : HostInput) : HostInput :=
  let h := { h with snapHome := false }
  match h.det.forceHome with
  | (det, some _) =>
    (({ h with det := det }.emit (.suppress false)).releaseHeld x).emit (.ctrl .edgeLeave)
      |>.emit (.event (.status "Control snapped home"))
  | (det, none) => { h with det := det }

/-- Seed the peer with one modifier the user holds. -/
def seedOne (x : Crates) (h : HostInput) (key : Key) : HostInput :=
  if key ∈ h.heldRemote then h
  else
    let h := h.sendKeyRepeat x key true
    { h with heldRemote := h.heldRemote ++ [key] }

/-- A mouse move while control is local. -/
def moveLocal (x : Crates) (ar : Arith) (desktop : Rect) (h : HostInput) (absX absY : Int)
    (edgeNow : ScreenEdge) : HostInput :=
  match h.det.updateLocal ar absX absY desktop with
  | (det, some (.toRemote entryNorm)) =>
    let (ex, ey) := entryPoint edgeNow entryNorm
    let h := ({ h with det := det }.emit (.suppress true)).emit (.park absX absY)
    let h := { h with vrx := ex, vry := ey }.emit (.ctrl (.edgeEnter ex ey))
    (h.heldModsLocal.foldl (seedOne x) h).emit (.event (.controlOnRemote true))
  | (det, _) => { h with det := det }

/-- The virtual cursor is pinned against the edge it entered through. -/
def atReturnEdge (ar : Arith) (edge : ScreenEdge) (vrx vry : F32) : Bool :=
  let eps := ar.f32 (1 / 10000)
  match edge with
  | .right => decide (vrx ≤ eps)
  | .left => decide (ar.f32 (1 - eps) ≤ vrx)
  | .bottom => decide (vry ≤ eps)
  | .top => decide (ar.f32 (1 - eps) ≤ vry)

/-- Accumulate a delta into the virtual cursor. -/
def moveVirtual (ar : Arith) (desktop : Rect) (h : HostInput) (dx dy : Int) : HostInput :=
  let invW := ar.f32 (1 / ar.f32 (max desktop.w 1))
  let invH := ar.f32 (1 / ar.f32 (max desktop.h 1))
  { h with
    vrx := clamp01 (ar.f32 (h.vrx + ar.f32 (ar.f32 dx * invW)))
    vry := clamp01 (ar.f32 (h.vry + ar.f32 (ar.f32 dy * invH))) }

/-- Count return-home pressure, and come home when there is enough of it. -/
def pressReturn (x : Crates) (ar : Arith) (h : HostInput) (dx dy : Int) (edgeNow : ScreenEdge) : HostInput :=
  match h.det.updateRemote ar dx dy (atReturnEdge ar edgeNow h.vrx h.vry) with
  | (det, some _) =>
    (({ h with det := det }.emit (.suppress false)).releaseHeld x).emit (.ctrl .edgeLeave)
      |>.emit (.event (.controlOnRemote false))
  | (det, none) => { h with det := det }

/-- A mouse move while control is remote. -/
def moveRemote (x : Crates) (ar : Arith) (desktop : Rect) (h : HostInput) (dx dy : Int)
    (edgeNow : ScreenEdge) : HostInput :=
  let h := h.moveVirtual ar desktop dx dy
  (h.sendRt x (.mouseMoveAbs h.vrx h.vry)).pressReturn x ar dx dy edgeNow

/-- Track the modifiers the user physically holds. -/
def trackLocal (h : HostInput) (key : Key) (pressed : Bool) : HostInput :=
  if isModifier key then
    { h with heldModsLocal :=
        if pressed then HeldKeys.press h.heldModsLocal key else HeldKeys.release h.heldModsLocal key }
  else h

/-- A captured key event: tracked, tested for the chord (which is not relayed), relayed if control is remote. -/
def inputKey (x : Crates) (h : HostInput) (key : Key) (pressed : Bool) : HostInput :=
  let h := h.trackLocal key pressed
  let (hotkey, chord) := h.hotkey.onKey key pressed
  let h := { h with hotkey := hotkey }
  if chord then { h with snapHome := true }
  else if h.det.site = .remote then
    { h with heldRemote :=
        if pressed then HeldKeys.press h.heldRemote key else HeldKeys.release h.heldRemote key }.sendRt x
      (.key key pressed)
  else h

/-- Any other captured event is relayed if control is remote. -/
def inputOther (x : Crates) (h : HostInput) (ev : InputEvent) : HostInput :=
  if h.det.site = .remote then h.sendRt x ev else h

end HostInput

/-- What one iteration finds: the edge setting at its start, whether the UI has asked to snap home since the last
one, the captured event if any, and the edge setting when it is read again. -/
structure HostTick where
  edge : ScreenEdge
  snapUi : Bool
  captured : Option CapturedEvent
  edgeNow : ScreenEdge

open HostInput in
/-- One iteration of the loop. -/
def hostIter (x : Crates) (ar : Arith) (desktop : Rect) (h : HostInput) (tick : HostTick) : HostInput :=
  let h := { h with det := h.det.setEdge tick.edge }
  let h := if h.snapHome || tick.snapUi then h.snap x else h
  match tick.captured with
  | none => h
  | some (.move dx dy absX absY) => match h.det.site with
    | .local => h.moveLocal x ar desktop absX absY tick.edgeNow
    | .remote => h.moveRemote x ar desktop dx dy tick.edgeNow
  | some (.input (.key key pressed)) => h.inputKey x key pressed
  | some (.input ev) => h.inputOther x ev

/-- The loop, over the iterations made before `stop` is seen. -/
def hostLoop (x : Crates) (ar : Arith) (desktop : Rect) (h : HostInput) (ticks : List HostTick) : HostInput :=
  ticks.foldl (hostIter x ar desktop) h

/-! ### Between the two waits of an iteration

Other threads run between the head of an iteration and its poll, so what they may see is a state between two of these
steps.
-/

/-- The head of an iteration, or its poll. -/
inductive LoopStep
  | head (edge : ScreenEdge) (snapUi : Bool)
  | poll (captured : Option CapturedEvent) (edgeNow : ScreenEdge)
  deriving DecidableEq

open HostInput in
/-- The edge setting, and the snap-home flag. -/
def hostHead (x : Crates) (h : HostInput) (edge : ScreenEdge) (snapUi : Bool) : HostInput :=
  let h := { h with det := h.det.setEdge edge }
  if h.snapHome || snapUi then h.snap x else h

open HostInput in
/-- The captured event. -/
def hostPoll (x : Crates) (ar : Arith) (desktop : Rect) (h : HostInput) (captured : Option CapturedEvent)
    (edgeNow : ScreenEdge) : HostInput :=
  match captured with
  | none => h
  | some (.move dx dy absX absY) => match h.det.site with
    | .local => h.moveLocal x ar desktop absX absY edgeNow
    | .remote => h.moveRemote x ar desktop dx dy edgeNow
  | some (.input (.key key pressed)) => h.inputKey x key pressed
  | some (.input ev) => h.inputOther x ev

def loopStep (x : Crates) (ar : Arith) (desktop : Rect) (h : HostInput) (step : LoopStep) : HostInput :=
  match step with
  | .head edge snapUi => hostHead x h edge snapUi
  | .poll captured edgeNow => hostPoll x ar desktop h captured edgeNow

def hostRun (x : Crates) (ar : Arith) (desktop : Rect) (h : HostInput) (steps : List LoopStep) : HostInput :=
  steps.foldl (loopStep x ar desktop) h

def HostTick.steps (tick : HostTick) : List LoopStep :=
  [.head tick.edge tick.snapUi, .poll tick.captured tick.edgeNow]

/-- The steps of a run. -/
def stepsOf (ticks : List HostTick) : List LoopStep := ticks.flatMap HostTick.steps

/-- After the loop: local input is not left suppressed. -/
def HostInput.exit (h : HostInput) : HostInput := h.emit (.suppress false)

theorem hostIter_eq (x : Crates) (ar : Arith) (desktop : Rect) (h : HostInput) (tick : HostTick) :
    hostIter x ar desktop h tick =
      hostPoll x ar desktop (hostHead x h tick.edge tick.snapUi) tick.captured tick.edgeNow := rfl

theorem hostLoop_eq (x : Crates) (ar : Arith) (desktop : Rect) (h : HostInput) (ticks : List HostTick) :
    hostLoop x ar desktop h ticks = hostRun x ar desktop h (stepsOf ticks) := by
  induction ticks generalizing h with
  | nil => rfl
  | cons tick ticks ih =>
    rw [hostLoop, List.foldl_cons, ← hostLoop, ih]
    rfl

theorem hostRun_snoc (x : Crates) (ar : Arith) (desktop : Rect) (h : HostInput) (steps : List LoopStep)
    (step : LoopStep) :
    hostRun x ar desktop h (steps ++ [step]) = loopStep x ar desktop (hostRun x ar desktop h steps) step := by
  simp [hostRun]

theorem hostRun_append (x : Crates) (ar : Arith) (desktop : Rect) (h : HostInput) (steps later : List LoopStep) :
    hostRun x ar desktop h (steps ++ later) = hostRun x ar desktop (hostRun x ar desktop h steps) later := by
  simp [hostRun]

end ScreenLink
