import ScreenLink.Input.Turns

/-!
# Local input stays private

Two runs of the loop: one with every captured event, and one from which the events processed while control is local
have been deleted, other than moves and modifier keys (`purge`). Their outputs are the same, packet for packet
(`local_input_private`). Between iterations the two differ in the detector's edge setting, which the next head sets
again, and, while control is local, in the snap-home flag, which the next head clears without effect (`Same`).
-/

namespace ScreenLink

open HostInput

/-- Neither a move nor a modifier key. -/
def CapturedEvent.ordinary : CapturedEvent → Bool
  | .move _ _ _ _ => false
  | .input (.key key _) => !isModifier key
  | .input _ => true

namespace HostInput

/-- The loop finds an ordinary event while control is local. -/
def hides (h : HostInput) (captured : Option CapturedEvent) : Bool :=
  decide (h.det.site = .local) && captured.any CapturedEvent.ordinary

/-- The same up to the edge setting and, while control is local, the snap-home flag. -/
def Same (h h' : HostInput) : Prop :=
  ∃ edge snapHome, h' = { h with det := { h.det with edge := edge }, snapHome := snapHome } ∧
    (h.det.site = .remote → snapHome = h.snapHome)

theorem Same.refl (h : HostInput) : Same h h := ⟨h.det.edge, h.snapHome, rfl, fun _ => rfl⟩

theorem Same.out {h h' : HostInput} (hsame : Same h h') : h'.out = h.out := by
  obtain ⟨edge, snapHome, rfl, -⟩ := hsame
  rfl

end HostInput

/-- The ticks of the second run. An iteration that finds an event to delete goes away; where its head brings control
home, only the event goes away. -/
def purge (x : Crates) (ar : Arith) (desktop : Rect) (h : HostInput) : List HostTick → List HostTick
  | [] => []
  | tick :: ticks =>
    let rest := purge x ar desktop (hostIter x ar desktop h tick) ticks
    if (hostHead x h tick.edge tick.snapUi).hides tick.captured then
      if h.det.site = .local then rest else { tick with captured := none } :: rest
    else tick :: rest

variable {x : Crates} {ar : Arith} {desktop : Rect} {h h' : HostInput}

theorem hostHead_local (hlocal : h.det.site = .local) (edge : ScreenEdge) (snapUi : Bool) :
    hostHead x h edge snapUi = { h with det := h.det.setEdge edge, snapHome := false } := by
  have hturn := hostHead_turn x h edge snapUi
  generalize hostHead x h edge snapUi = h₁ at hturn
  rcases hturn with _ | ⟨hremote, -, -, -⟩
  · rfl
  · rw [hlocal] at hremote
    cases hremote

theorem hostHead_same (hsame : h.Same h') (edge : ScreenEdge) (snapUi : Bool) :
    hostHead x h' edge snapUi = hostHead x h edge snapUi := by
  obtain ⟨edge', snapHome, rfl, hsnap⟩ := hsame
  cases hsite : h.det.site with
  | remote =>
    obtain rfl := hsnap hsite
    rfl
  | «local» =>
    rw [hostHead_local hsite]
    exact hostHead_local (h := { h with det := { h.det with edge := edge' }, snapHome := snapHome }) hsite edge snapUi

theorem hostIter_same (hsame : h.Same h') (tick : HostTick) :
    hostIter x ar desktop h' tick = hostIter x ar desktop h tick := by
  rw [hostIter_eq, hostIter_eq, hostHead_same hsame]

theorem hostPoll_hides (x : Crates) (ar : Arith) (desktop : Rect) {captured : Option CapturedEvent}
    (edgeNow : ScreenEdge) (hhides : h.hides captured = true) :
    h.det.site = .local ∧
      ∃ snapHome, hostPoll x ar desktop h captured edgeNow = { h with snapHome := snapHome } := by
  rw [hides, Bool.and_eq_true, decide_eq_true_eq] at hhides
  obtain ⟨hlocal, hordinary⟩ := hhides
  refine ⟨hlocal, ?_⟩
  have hturn := hostPoll_turn x ar desktop h captured edgeNow
  generalize hostPoll x ar desktop h captured edgeNow = h' at hturn ⊢
  rcases hturn with _ | ⟨hsite, hupdate⟩ | ⟨hsite, hupdate, hremote, hsent, hdoes⟩ | ⟨hsite, hremote, hsent, hdoes⟩ |
    ⟨hsite, hlocal, hsent, hreleased, hdoes⟩ | hchord | @⟨key, pressed, _, hchord, hsite⟩ |
    ⟨hchord, hsite, hsent, hdoes⟩ | ⟨hev, hsite⟩ | ⟨hev, hsite, hsent, hdoes⟩
  · cases hordinary
  · cases hordinary
  · cases hordinary
  · cases hordinary
  · cases hordinary
  · exact ⟨true, rfl⟩
  · -- an ordinary key: neither the modifiers nor the chord's state change
    have hmod : isModifier key = false := by simpa [CapturedEvent.ordinary] using hordinary
    have hhotkey : (h.hotkey.onKey key pressed).1 = h.hotkey := by
      cases key <;> simp_all [HotkeyDetector.onKey, isModifier]
    refine ⟨h.snapHome, ?_⟩
    rw [hhotkey, trackLocal, if_neg (by simp [hmod])]
  · rw [hlocal] at hsite
    cases hsite
  · exact ⟨h.snapHome, rfl⟩
  · rw [hlocal] at hsite
    cases hsite

theorem hostIter_hides (x : Crates) (ar : Arith) (desktop : Rect) {tick : HostTick}
    (hhides : (hostHead x h tick.edge tick.snapUi).hides tick.captured = true) :
    (hostIter x ar desktop h tick).det.site = .local ∧
      ∃ snapHome, hostIter x ar desktop h tick =
        { hostHead x h tick.edge tick.snapUi with snapHome := snapHome } := by
  obtain ⟨hlocal, snapHome, hpoll⟩ := hostPoll_hides x ar desktop tick.edgeNow hhides
  rw [hostIter_eq, hpoll]
  exact ⟨hlocal, snapHome, rfl⟩

theorem same_of_local (hlocal : h.det.site = .local) (edge : ScreenEdge) (snapHome : Bool)
    (heq : h' = { h with det := { h.det with edge := edge }, snapHome := snapHome }) : h.Same h' := by
  refine ⟨edge, snapHome, heq, fun hremote => ?_⟩
  rw [hlocal] at hremote
  cases hremote

theorem purge_same (hsame : h.Same h') (ticks : List HostTick) :
    (hostLoop x ar desktop h ticks).Same (hostLoop x ar desktop h' (purge x ar desktop h ticks)) := by
  induction ticks generalizing h h' with
  | nil => exact hsame
  | cons tick ticks ih =>
    have hloop : hostLoop x ar desktop h (tick :: ticks) = hostLoop x ar desktop (hostIter x ar desktop h tick) ticks :=
      rfl
    rw [hloop, purge]
    split_ifs with hhides hsite
    · -- the iteration goes away
      obtain ⟨hlocal, snapHome, hiter⟩ := hostIter_hides x ar desktop hhides
      obtain ⟨edge', snapHome', rfl, -⟩ := hsame
      refine ih (same_of_local hlocal edge' snapHome' ?_)
      rw [hiter, hostHead_local hsite]
      rfl
    · -- its head brings control home
      obtain ⟨hlocal, snapHome, hiter⟩ := hostIter_hides x ar desktop hhides
      show (hostLoop x ar desktop _ ticks).Same (hostLoop x ar desktop (hostIter x ar desktop h' _) _)
      rw [hostIter_same hsame]
      refine ih (same_of_local hlocal (hostHead x h tick.edge tick.snapUi).det.edge
        (hostHead x h tick.edge tick.snapUi).snapHome ?_)
      rw [hiter]
      rfl
    · show (hostLoop x ar desktop _ ticks).Same (hostLoop x ar desktop (hostIter x ar desktop h' tick) _)
      rw [hostIter_same hsame]
      exact ih (.refl _)

/-- Deleting the events processed while control is local, other than moves and modifier keys, changes nothing of what
the loop does: neither the input events sent to the peer nor the control messages. -/
theorem local_input_private (x : Crates) (ar : Arith) (desktop : Rect) (edge : ScreenEdge) (hysteresis : Int)
    (rt : RealtimeCrypto) (ticks : List HostTick) :
    (hostLoop x ar desktop (.start edge hysteresis rt)
      (purge x ar desktop (.start edge hysteresis rt) ticks)).out =
        (hostLoop x ar desktop (.start edge hysteresis rt) ticks).out :=
  (purge_same (.refl _) ticks).out

end ScreenLink
