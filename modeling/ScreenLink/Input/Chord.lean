import ScreenLink.Input.Observers

/-!
# The snap-home chord

`HotkeyDetector` folds the two keys of each pair into one flag, so the flag is what the last event about either key
was (`feed_flags`). A pair whose flag is on has a key that is down, but a pair with a key that is down may
have its flag off: the other key was released last. The chord is found exactly when that has not happened to either
pair (`chord_iff`).
-/

namespace ScreenLink

open HeldKeys

def isCtrl : Key → Bool
  | .controlLeft | .controlRight => true
  | _ => false

def isAlt : Key → Bool
  | .altLeft | .altRight => true
  | _ => false

/-- A Ctrl key and an Alt key are down. -/
def ChordHeld (log : List (Key × Bool)) : Prop :=
  (Down log .controlLeft ∨ Down log .controlRight) ∧ (Down log .altLeft ∨ Down log .altRight)

instance (log : List (Key × Bool)) : Decidable (ChordHeld log) := inferInstanceAs (Decidable (_ ∧ _))

/-- The event completes the chord: Home is pressed while it is held. -/
def CompletesChord (log : List (Key × Bool)) (key : Key) (pressed : Bool) : Prop :=
  key = .home ∧ pressed = true ∧ ChordHeld log

/-- The last event about either Ctrl key was a press, and so was the last about either Alt key. -/
def LastPressed (log : List (Key × Bool)) : Prop := lastOf isCtrl log = some true ∧ lastOf isAlt log = some true

theorem LastPressed.held {log : List (Key × Bool)} (h : LastPressed log) : ChordHeld log := by
  obtain ⟨hctrl, halt⟩ := h
  constructor
  · obtain ⟨key, hkey, hdown⟩ := exists_down_of_lastOf hctrl
    cases key with
    | controlLeft => exact Or.inl hdown
    | controlRight => exact Or.inr hdown
    | _ => cases hkey
  · obtain ⟨key, hkey, hdown⟩ := exists_down_of_lastOf halt
    cases key with
    | altLeft => exact Or.inl hdown
    | altRight => exact Or.inr hdown
    | _ => cases hkey

/-! ### The detector -/

namespace HotkeyDetector

/-- The detector after a log of key events. -/
def feed (d : HotkeyDetector) (log : List (Key × Bool)) : HotkeyDetector :=
  log.foldl (fun d e => (d.onKey e.1 e.2).1) d

theorem feed_append (d : HotkeyDetector) (log later : List (Key × Bool)) :
    d.feed (log ++ later) = (d.feed log).feed later := List.foldl_append

theorem feed_snoc (d : HotkeyDetector) (log : List (Key × Bool)) (key : Key) (pressed : Bool) :
    d.feed (log ++ [(key, pressed)]) = ((d.feed log).onKey key pressed).1 := feed_append d log _

theorem onKey_flags (d : HotkeyDetector) (key : Key) (pressed : Bool) :
    (d.onKey key pressed).1 = ⟨if isCtrl key then pressed else d.ctrl, if isAlt key then pressed else d.alt⟩ := by
  cases key <;> rfl

theorem onKey_reports (d : HotkeyDetector) (key : Key) (pressed : Bool) :
    (d.onKey key pressed).2 = true ↔ key = .home ∧ pressed = true ∧ d.ctrl = true ∧ d.alt = true := by
  cases key <;> simp [onKey, and_assoc]

/-- Each flag is what the last event about its pair was. -/
theorem feed_flags (log : List (Key × Bool)) :
    feed {} log = ⟨decide (lastOf isCtrl log = some true), decide (lastOf isAlt log = some true)⟩ := by
  induction log using List.reverseRecOn with
  | nil => rfl
  | append_singleton log e ih =>
    obtain ⟨key, pressed⟩ := e
    have hlast : ∀ pair : Key → Bool, decide (lastOf pair (log ++ [(key, pressed)]) = some true) =
        if pair key then pressed else decide (lastOf pair log = some true) := by
      intro pair
      rw [lastOf_snoc]
      cases pair key <;> simp
    rw [feed_snoc, onKey_flags, ih, hlast, hlast]

theorem reports_iff (log : List (Key × Bool)) (key : Key) (pressed : Bool) :
    ((feed {} log).onKey key pressed).2 = true ↔ key = .home ∧ pressed = true ∧ LastPressed log := by
  rw [onKey_reports, feed_flags, LastPressed, decide_eq_true_iff, decide_eq_true_iff]

/-- At every event of the log, the detector reports the chord iff the event completes it. -/
def Follows (log : List (Key × Bool)) : Prop :=
  ∀ front key pressed back, log = front ++ (key, pressed) :: back →
    (((feed {} front).onKey key pressed).2 = true ↔ CompletesChord front key pressed)

theorem follows_iff (log : List (Key × Bool)) :
    Follows log ↔ ∀ front back, log = front ++ (.home, true) :: back → ChordHeld front → LastPressed front := by
  constructor
  · intro hfollows front back hsplit hheld
    exact ((reports_iff front .home true).mp ((hfollows front .home true back hsplit).mpr ⟨rfl, rfl, hheld⟩)).2.2
  · intro hlast front key pressed back hsplit
    rw [reports_iff]
    constructor
    · rintro ⟨hkey, hpressed, hflags⟩
      exact ⟨hkey, hpressed, hflags.held⟩
    · rintro ⟨rfl, rfl, hheld⟩
      exact ⟨rfl, rfl, hlast front back hsplit hheld⟩

end HotkeyDetector

/-! ### The loop -/

theorem hotkey_head (x : Crates) (h : HostInput) (edge : ScreenEdge) (snapUi : Bool) :
    (hostHead x h edge snapUi).hotkey = h.hotkey := by
  have hturn := hostHead_turn x h edge snapUi
  generalize hostHead x h edge snapUi = h' at hturn
  rcases hturn with hkeep | ⟨-, -, -, hdoes⟩
  · rfl
  · exact hdoes.hotkey

theorem hotkey_poll (x : Crates) (ar : Arith) (desktop : Rect) (h : HostInput) (captured : Option CapturedEvent)
    (edgeNow : ScreenEdge) :
    (hostPoll x ar desktop h captured edgeNow).hotkey =
      h.hotkey.feed (LoopStep.poll captured edgeNow).key?.toList := by
  have hturn := hostPoll_turn x ar desktop h captured edgeNow
  generalize hostPoll x ar desktop h captured edgeNow = h' at hturn
  rcases hturn with _ | _ | ⟨-, -, -, -, hdoes⟩ | ⟨-, -, -, hdoes⟩ | ⟨-, -, -, -, hdoes⟩ | hchord | _ |
    ⟨-, -, -, hdoes⟩ | ⟨hev, -⟩ | ⟨hev, -, -, hdoes⟩
  · rfl
  · rfl
  · exact hdoes.hotkey
  · exact hdoes.hotkey
  · exact hdoes.hotkey
  · -- the last key of the chord changes neither flag
    exact (HostInput.onKey_chord_hotkey _ _ _ hchord).symm
  · rfl
  · exact hdoes.hotkey
  · rw [LoopStep.key?_other hev]
    rfl
  · rw [LoopStep.key?_other hev]
    exact hdoes.hotkey

theorem hotkey_run (x : Crates) (ar : Arith) (desktop : Rect) (h : HostInput) (steps : List LoopStep) :
    (hostRun x ar desktop h steps).hotkey = h.hotkey.feed (steps.filterMap LoopStep.key?) := by
  induction steps using List.reverseRecOn with
  | nil => rfl
  | append_singleton steps step ih =>
    rw [hostRun_snoc, List.filterMap_append, HotkeyDetector.feed_append, ← ih]
    cases step with
    | head edge snapUi => exact hotkey_head x _ edge snapUi
    | poll captured edgeNow =>
      rw [loopStep, hotkey_poll, List.filterMap_cons, List.filterMap_nil]
      cases (LoopStep.poll captured edgeNow).key? <;> rfl

theorem hotkey_loop (x : Crates) (ar : Arith) (desktop : Rect) (h : HostInput) (ticks : List HostTick) :
    (hostLoop x ar desktop h ticks).hotkey = h.hotkey.feed (keysCaptured ticks) := by
  rw [hostLoop_eq, hotkey_run, keys_stepsOf]

/-- Whenever an event completes the chord while control is remote, control is local and suppression is off by the time
the loop takes another event. -/
def ComesHome (x : Crates) (ar : Arith) (desktop : Rect) (h : HostInput) (ticks : List HostTick) : Prop :=
  ∀ front tick back key pressed, ticks = front ++ tick :: back →
    tick.captured = some (.input (.key key pressed)) → CompletesChord (keysCaptured front) key pressed →
      (hostHead x (hostLoop x ar desktop h front) tick.edge tick.snapUi).det.site = .remote →
        ∀ edge snapUi,
          let next := hostHead x (hostLoop x ar desktop h (front ++ [tick])) edge snapUi
          next.det.site = .local ∧ next.told.suppress = false

theorem home_of_chord (x : Crates) (ar : Arith) (desktop : Rect) {h : HostInput} {key : Key} {pressed : Bool}
    (hsite : h.det.site = .remote) (hchord : (h.hotkey.onKey key pressed).2 = true) (edgeNow edge : ScreenEdge)
    (snapUi : Bool) :
    let next := hostHead x (hostPoll x ar desktop h (some (.input (.key key pressed))) edgeNow) edge snapUi
    next.det.site = .local ∧ next.told.suppress = false := by
  rw [hostPoll_chord x ar desktop hchord edgeNow]
  rcases told_head x { h with snapHome := true } edge snapUi with ⟨-, -, htold, hdet⟩ | ⟨hnot, -, -⟩
  · have hremote : (h.det.setEdge edge).site = .remote := hsite
    refine ⟨?_, by rw [htold]⟩
    rw [hdet, EdgeDetector.forceHome, if_pos hremote]
  · exact absurd ⟨hsite, rfl⟩ hnot

theorem comesHome_of_lastPressed {x : Crates} {ar : Arith} {desktop : Rect} {h : HostInput} {ticks : List HostTick}
    (hstart : h.hotkey = {})
    (hlast : ∀ front back, keysCaptured ticks = front ++ (.home, true) :: back → ChordHeld front →
      LastPressed front) : ComesHome x ar desktop h ticks := by
  rintro front tick back key pressed hsplit hcaptured ⟨rfl, rfl, hheld⟩ hsite edge snapUi
  have hlog : keysCaptured ticks = keysCaptured front ++ (.home, true) :: keysCaptured back := by
    have hkey : tick.key? = some (.home, true) := by rw [HostTick.key?, hcaptured]
    rw [hsplit, keysCaptured, List.filterMap_append, List.filterMap_cons, hkey]
    rfl
  have hflags : LastPressed (keysCaptured front) := hlast _ _ hlog hheld
  have hchord : ((hostHead x (hostLoop x ar desktop h front) tick.edge tick.snapUi).hotkey.onKey .home true).2 =
      true := by
    rw [hotkey_head, hotkey_loop, hstart]
    exact (HotkeyDetector.reports_iff _ _ _).mpr ⟨rfl, rfl, hflags⟩
  have hnext := home_of_chord x ar desktop hsite hchord tick.edgeNow edge snapUi
  rw [hostLoop, List.foldl_append, List.foldl_cons, List.foldl_nil, hostIter_eq, hcaptured]
  exact hnext

/-- For any captured events: the detector reports exactly the events that complete the chord, and the loop comes home on
each of them before it takes another event, iff whenever Home is pressed with the chord held, the last event about
either Ctrl key and the last about either Alt key were presses. -/
theorem chord_iff (x : Crates) (ar : Arith) (desktop : Rect) (edge : ScreenEdge) (hysteresis : Int)
    (rt : RealtimeCrypto) (ticks : List HostTick) :
    (HotkeyDetector.Follows (keysCaptured ticks) ∧ ComesHome x ar desktop (.start edge hysteresis rt) ticks) ↔
      ∀ front back, keysCaptured ticks = front ++ (.home, true) :: back → ChordHeld front → LastPressed front := by
  rw [HotkeyDetector.follows_iff]
  exact ⟨And.left, fun hlast => ⟨hlast, comesHome_of_lastPressed rfl hlast⟩⟩

/-- The cursor crosses the right edge; both Ctrl keys go down, and the right one up again; Alt and Home go down. -/
def otherCtrlUp : List HostTick :=
  ⟨.right, false, some (.move 5 0 1919 540), .right⟩ ::
    [(.controlLeft, true), (.controlRight, true), (.controlRight, false), (.altLeft, true), (.home, true)].map
      fun e : Key × Bool => ⟨.right, false, some (.input (.key e.1 e.2)), .right⟩

/-- The left Ctrl and Alt are down, the chord is not found, and control stays on the remote. -/
theorem chord_missed :
    ¬ HotkeyDetector.Follows (keysCaptured otherCtrlUp) ∧
      ¬ ComesHome shiftCrates .exact ⟨0, 0, 1920, 1080⟩
        (.start .right 25 (RealtimeCrypto.new (Vector.replicate 32 7) 1 true)) otherCtrlUp := by
  constructor
  · intro hfollows
    have hlast := (HotkeyDetector.follows_iff _).mp hfollows
      [(.controlLeft, true), (.controlRight, true), (.controlRight, false), (.altLeft, true)] [] rfl
    exact absurd (hlast (by decide)).1 (by decide)
  · intro hhome
    have hnext := hhome (otherCtrlUp.take 5) ⟨.right, false, some (.input (.key .home true)), .right⟩ [] .home true rfl
      rfl ⟨rfl, rfl, by decide⟩ (by decide +kernel) .right false
    exact absurd hnext.1 (by decide +kernel)

end ScreenLink
