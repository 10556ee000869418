import ScreenLink.Input.Observers
import ScreenLink.Input.Sent
import ScreenLink.Lib.Machine

/-!
# The capture hooks and the loop

`win_capture.rs` beside `inputloop.rs`: the hook thread puts each event in a bounded queue, and eats it iff the
suppress flag is on at that instant; the loop's thread takes the events out one by one. A wheel notch takes two steps of
the hook thread while Raw Input is active: `mouse_proc` eats it or not, and `handle_raw_mouse` queues it when its
`WM_INPUT` is dispatched. A run is any interleaving of these with the heads and polls of the loop, and its exit. The
suppress flag is what the loop has last set it to, so it is on exactly when control is remote (`flagRight_run`).
-/

namespace ScreenLink

open HeldKeys Machine HostInput

def CapturedEvent.stroke? : CapturedEvent → Option (Stroke × Bool)
  | .move _ _ _ _ => none
  | .input ev => ev.stroke?

/-- `sync_channel::<CapturedEvent>(1024)` -/
def EVENT_QUEUE : ℕ := 1024

/-- An event in the queue, and what the hook has done with it. -/
structure Hooked where
  event : CapturedEvent
  /-- History: not passed on to the local applications. -/
  eaten : Bool
  /-- History: where control was. -/
  site : ControlSite
  deriving DecidableEq

/-- History: an event the loop has taken from the queue. -/
structure Handled where
  queued : Hooked
  /-- Where control was when the loop took it. -/
  site : ControlSite
  /-- It completes the snap-home chord. -/
  chord : Bool
  /-- What the loop sent on it. -/
  sent : List InputEvent
  deriving DecidableEq

/-- The two threads and what they share. -/
structure Capture where
  host : HostInput
  /-- The head of an iteration has run, and its poll has not. -/
  polling : Bool
  exited : Bool
  queue : List Hooked
  /-- The wheel notches that `mouse_proc` has seen and Raw Input has not reported yet. -/
  notches : List Hooked
  /-- History: what has been pressed and released physically. -/
  physical : List (Stroke × Bool)
  /-- History: what the local applications have seen of it. -/
  osSaw : List (Stroke × Bool)
  /-- History: what has been eaten since control last crossed. -/
  visit : List (Stroke × Bool)
  /-- History: what has been sent while the loop runs. -/
  hooked : List Hooked
  /-- History: what has been sent since the loop has gone. -/
  lost : List Hooked
  handled : List Handled
  /-- History: an event did not fit in the queue. -/
  overflowed : Bool

/-- The chord is complete with this event. -/
def HostInput.chord (h : HostInput) : CapturedEvent → Bool
  | .input (.key key pressed) => (h.hotkey.onKey key pressed).2
  | _ => false

namespace Capture

def start (h : HostInput) : Capture where
  host := h
  polling := false
  exited := false
  queue := []
  notches := []
  physical := []
  osSaw := []
  visit := []
  hooked := []
  lost := []
  handled := []
  overflowed := false

/-- The suppress flag. -/
def suppress (s : Capture) : Bool := s.host.told.suppress

/-- Where control is: on the host again when the loop has exited. -/
def site (s : Capture) : ControlSite := if s.exited then .local else s.host.det.site

/-- `try_send`: the event is dropped when the queue is full, or when the loop has gone. -/
def trySend (s : Capture) (q : Hooked) : Capture :=
  if s.exited then { s with lost := s.lost ++ [q] }
  else if EVENT_QUEUE ≤ s.queue.length then { s with overflowed := true, hooked := s.hooked ++ [q] }
  else { s with queue := s.queue ++ [q], hooked := s.hooked ++ [q] }

/-- What the hook does with an event at this instant. -/
def hooks (s : Capture) (event : CapturedEvent) : Hooked := ⟨event, s.suppress, s.site⟩

/-- `keyboard_proc`, `mouse_proc`: send the event, and eat it iff the suppress flag is on. -/
def hook (s : Capture) (event : CapturedEvent) : Capture :=
  let stroke := event.stroke?.toList
  { s.trySend (s.hooks event) with
    physical := s.physical ++ stroke
    osSaw := if s.suppress then s.osSaw else s.osSaw ++ stroke
    visit := if s.suppress then s.visit ++ stroke else s.visit }

/-- `mouse_proc` on a wheel message while Raw Input is active: nothing is sent, and it is eaten iff the flag is on. -/
def notch (s : Capture) (dx dy : Int) : Capture :=
  { s with notches := s.notches ++ [s.hooks (.input (.mouseWheel dx dy))] }

/-- `handle_raw_mouse` on the next notch: it is sent, whether it was eaten or not. -/
def rawWheel (s : Capture) : Option Capture :=
  match s.notches with
  | [] => none
  | q :: rest => some ({ s with notches := rest }.trySend q)

/-- The loop takes the next event, or waits in vain. -/
def poll (x : Crates) (ar : Arith) (desktop : Rect) (s : Capture) (edgeNow : ScreenEdge) : Capture :=
  let host := hostPoll x ar desktop s.host (s.queue.head?.map Hooked.event) edgeNow
  { s with
    host := host
    polling := false
    queue := s.queue.tail
    visit := if s.host.det.site = .local ∧ host.det.site = .remote then [] else s.visit
    handled := s.handled ++ s.queue.head?.toList.map fun q =>
      ⟨q, s.host.det.site, s.host.chord q.event, host.sent.drop s.host.sent.length⟩ }

end Capture

inductive CaptureEvent
  | hook (event : CapturedEvent)
  /-- The hook sees a wheel notch while Raw Input is active. -/
  | notch (dx dy : Int)
  /-- Raw Input reports the next notch. -/
  | rawWheel
  | head (edge : ScreenEdge) (snapUi : Bool)
  | poll (edgeNow : ScreenEdge)
  /-- The loop finds `stop` set. -/
  | exit
  deriving DecidableEq

namespace Capture

def step (x : Crates) (ar : Arith) (desktop : Rect) (s : Capture) : CaptureEvent → Option Capture
  | .hook event => some (s.hook event)
  | .notch dx dy => some (s.notch dx dy)
  | .rawWheel => s.rawWheel
  | .head edge snapUi =>
    if s.exited || s.polling then none
    else some { s with host := hostHead x s.host edge snapUi, polling := true }
  | .poll edgeNow => if s.exited || !s.polling then none else some (s.poll x ar desktop edgeNow)
  | .exit => if s.exited || s.polling then none else some { s with host := s.host.exit, exited := true }

variable {x : Crates} {ar : Arith} {desktop : Rect} {s t : Capture}

/-- The loop's own steps. -/
inductive LoopTurn (x : Crates) (ar : Arith) (desktop : Rect) (s : Capture) : CaptureEvent → Capture → Prop
  | head {edge : ScreenEdge} {snapUi : Bool} (hrunning : s.exited = false) :
      LoopTurn x ar desktop s (.head edge snapUi) { s with host := hostHead x s.host edge snapUi, polling := true }
  | poll {edgeNow : ScreenEdge} (hrunning : s.exited = false) :
      LoopTurn x ar desktop s (.poll edgeNow) (s.poll x ar desktop edgeNow)
  | exit (hrunning : s.exited = false) :
      LoopTurn x ar desktop s .exit { s with host := s.host.exit, exited := true }

/-- The hook thread's steps on a wheel notch while Raw Input is active. -/
inductive WheelTurn (s : Capture) : CaptureEvent → Capture → Prop
  | notch {dx dy : Int} : WheelTurn s (.notch dx dy) (s.notch dx dy)
  | rawWheel {q : Hooked} {rest : List Hooked} (hq : s.notches = q :: rest) :
      WheelTurn s .rawWheel ({ s with notches := rest }.trySend q)

theorem step_cases {e : CaptureEvent} (hstep : step x ar desktop s e = some t) :
    (∃ event, e = .hook event ∧ t = s.hook event) ∨ WheelTurn s e t ∨ LoopTurn x ar desktop s e t := by
  cases e with
  | hook event => exact Or.inl ⟨event, rfl, (Option.some.inj hstep).symm⟩
  | notch dx dy => exact Or.inr (Or.inl (Option.some.inj hstep ▸ .notch))
  | rawWheel =>
    simp only [step, Capture.rawWheel] at hstep
    split at hstep
    case h_1 => cases hstep
    case h_2 q rest hq => exact Or.inr (Or.inl (Option.some.inj hstep ▸ .rawWheel hq))
  | head edge snapUi =>
    refine Or.inr (Or.inr ?_)
    simp only [step, Option.ite_none_left_eq_some, Bool.or_eq_true, not_or, Bool.not_eq_true] at hstep
    obtain ⟨⟨hrunning, -⟩, heq⟩ := hstep
    obtain rfl := Option.some.inj heq
    exact .head hrunning
  | poll edgeNow =>
    refine Or.inr (Or.inr ?_)
    simp only [step, Option.ite_none_left_eq_some, Bool.or_eq_true, not_or, Bool.not_eq_true] at hstep
    obtain ⟨⟨hrunning, -⟩, heq⟩ := hstep
    obtain rfl := Option.some.inj heq
    exact .poll hrunning
  | exit =>
    refine Or.inr (Or.inr ?_)
    simp only [step, Option.ite_none_left_eq_some, Bool.or_eq_true, not_or, Bool.not_eq_true] at hstep
    obtain ⟨⟨hrunning, -⟩, heq⟩ := hstep
    obtain rfl := Option.some.inj heq
    exact .exit hrunning

/-! ### The hook -/

/-- The hook thread leaves the loop alone. -/
structure Beside (s t : Capture) : Prop where
  host : t.host = s.host
  exited : t.exited = s.exited
  handled : t.handled = s.handled

theorem beside_trySend (s : Capture) (q : Hooked) : Beside s (s.trySend q) := by
  unfold trySend
  split_ifs <;> exact ⟨rfl, rfl, rfl⟩

theorem beside_hook (s : Capture) (event : CapturedEvent) : Beside s (s.hook event) := by
  obtain ⟨hhost, hexited, hhandled⟩ := beside_trySend s (s.hooks event)
  exact ⟨hhost, hexited, hhandled⟩

@[simp] theorem hook_host (s : Capture) (event : CapturedEvent) : (s.hook event).host = s.host :=
  (beside_hook s event).host

@[simp] theorem hook_exited (s : Capture) (event : CapturedEvent) : (s.hook event).exited = s.exited :=
  (beside_hook s event).exited

theorem WheelTurn.beside {e : CaptureEvent} (h : WheelTurn s e t) : Beside s t := by
  cases h with
  | notch => exact ⟨rfl, rfl, rfl⟩
  | @rawWheel q rest hq =>
    obtain ⟨hhost, hexited, hhandled⟩ := beside_trySend { s with notches := rest } q
    exact ⟨hhost, hexited, hhandled⟩

theorem WheelTurn.logs {e : CaptureEvent} (h : WheelTurn s e t) :
    t.physical = s.physical ∧ t.osSaw = s.osSaw ∧ t.visit = s.visit := by
  cases h with
  | notch => exact ⟨rfl, rfl, rfl⟩
  | @rawWheel q rest hq =>
    unfold trySend
    split_ifs <;> exact ⟨rfl, rfl, rfl⟩

/-! ### The suppress flag -/

/-- The flag is on iff the loop runs with control on the remote. -/
def FlagRight (s : Capture) : Prop := s.suppress = (!s.exited && decide (s.host.det.site = .remote))

theorem flagRight_step {e : CaptureEvent} (hflag : FlagRight s) (hstep : step x ar desktop s e = some t) :
    FlagRight t := by
  rcases step_cases hstep with ⟨event, -, rfl⟩ | hwheel | hturn
  · simpa [FlagRight, suppress] using hflag
  · rwa [FlagRight, suppress, hwheel.beside.host, hwheel.beside.exited]
  rw [FlagRight, suppress] at hflag ⊢
  rcases hturn with @⟨edge, snapUi, hrunning⟩ | @⟨edgeNow, hrunning⟩ | hrunning
  · rw [hrunning] at hflag ⊢
    rcases told_head x s.host edge snapUi with ⟨hsite, -, htold, hdet⟩ | ⟨-, htold, hdet⟩
    · have hsite' : (s.host.det.setEdge edge).site = .remote := hsite
      simp [htold, hdet, EdgeDetector.forceHome, hsite']
    · simp [htold, hdet, hflag, EdgeDetector.setEdge]
  · show (hostPoll x ar desktop s.host _ edgeNow).told.suppress =
      (!s.exited && decide ((hostPoll x ar desktop s.host _ edgeNow).det.site = .remote))
    rw [hrunning] at hflag ⊢
    rcases told_poll x ar desktop s.host (s.queue.head?.map Hooked.event) edgeNow with
      ⟨-, htold, hsite⟩ | ⟨-, htold, hsite⟩ | ⟨-, htold, hsite⟩
    · simp [htold, hsite, Told.all]
    · simp [htold, hsite, Told.all]
    · simp [htold, hsite, hflag]
  · simp [HostInput.told, HostInput.exit, HostInput.emit, HostInput.deeds, HostOut.deed, Told.hear]

theorem flagRight_run {edge : ScreenEdge} {hysteresis : Int} {rt : RealtimeCrypto} {es : List CaptureEvent}
    (hrun : run (step x ar desktop) (start (.start edge hysteresis rt)) es = some s) : FlagRight s :=
  run_invariant (P := FlagRight) (by rfl) (fun _ _ _ => flagRight_step) es s hrun

theorem hooks_eaten (hflag : FlagRight s) (event : CapturedEvent) :
    (s.hooks event).eaten = decide ((s.hooks event).site = .remote) := by
  rw [FlagRight] at hflag
  simp only [hooks, site, hflag]
  cases s.exited <;> simp

end Capture

end ScreenLink
