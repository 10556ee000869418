import ScreenLink.Input.HeldKeys

/-!
# What a step sends

The input events sent to the peer, when sending does not fail. A step sends one of six things (`loopStep_sends`):
nothing, the releases of the keys held for the peer on a way home (after a last position, through the edge), the
presses of the modifiers on the crossing, a position, or the event it relays (`relays`).
-/

namespace ScreenLink

open HeldKeys HostInput

def InputEvent.key? : InputEvent → Option (Key × Bool)
  | .key pos pressed => some (pos, pressed)
  | _ => none

def InputEvent.button? : InputEvent → Option (MouseButton × Bool)
  | .mouseButton button pressed => some (button, pressed)
  | _ => none

/-- A key or a mouse button. -/
inductive Stroke
  | key (pos : Key)
  | button (button : MouseButton)
  deriving DecidableEq

def InputEvent.stroke? : InputEvent → Option (Stroke × Bool)
  | .key pos pressed => some (.key pos, pressed)
  | .mouseButton button pressed => some (.button button, pressed)
  | _ => none

def Deed.sent? : Deed → Option InputEvent
  | .sent ev => some ev
  | _ => none

/-- The keys held for the peer after an event is relayed. -/
def heldAfter (held : List Key) : InputEvent → List Key
  | .key key pressed => if pressed then press held key else release held key
  | _ => held

namespace HostInput

/-- The input events sent to the peer. -/
def sent (h : HostInput) : List InputEvent := h.deeds.filterMap Deed.sent?

/-- The input event a step relays: one that is captured while control is remote, and does not complete the chord. -/
def relays (h : HostInput) : LoopStep → Option InputEvent
  | .poll (some (.input (.key key pressed))) _ =>
    if h.det.site = .remote ∧ (h.hotkey.onKey key pressed).2 = false then some (.key key pressed) else none
  | .poll (some (.input ev)) _ => if h.det.site = .remote then some ev else none
  | _ => none

variable {x : Crates} {h h' : HostInput} {ds : List Deed} {evs : List InputEvent}

theorem keysSent_eq (h : HostInput) : h.keysSent = h.sent.filterMap InputEvent.key? := by
  rw [keysSent_deeds, sent, List.filterMap_filterMap]
  refine List.filterMap_congr fun d _ => ?_
  rcases d with ev | msg | event | on | ⟨px, py⟩
  · cases ev <;> rfl
  all_goals rfl

theorem Does.sent (hdoes : Does h ds h') : h'.sent = h.sent ++ ds.filterMap Deed.sent? := by
  rw [HostInput.sent, hdoes.deeds, List.filterMap_append]
  rfl

theorem sent_of_sentBy (hsends : x.Sends) (hsent : x.SentBy evs ds) : ds.filterMap Deed.sent? = evs := by
  have hsome : ∀ ev ∈ evs, (Deed.sent? ∘ Deed.sent) ev = some ev := fun ev _ => rfl
  rw [hsent.all hsends, List.filterMap_map, List.filterMap_congr hsome, List.filterMap_some]

theorem relays_other {ev : InputEvent} (hev : ∀ key pressed, ev ≠ .key key pressed) (edgeNow : ScreenEdge) :
    h.relays (.poll (some (.input ev)) edgeNow) = if h.det.site = .remote then some ev else none := by
  cases ev with
  | key key pressed => exact absurd rfl (hev key pressed)
  | _ => rfl

end HostInput

/-- What a step sends, where control is before and after it, and the keys held for the peer. -/
inductive StepSends (h : HostInput) (step : LoopStep) (h' : HostInput) : Prop
  | quiet (hsite : h'.det.site = h.det.site) (hrelays : h.relays step = none)
      (hheld : h'.heldRemote = h.heldRemote) (hsent : h'.sent = h.sent)
  | snaps (hsite : h.det.site = .remote) (hlocal : h'.det.site = .local) (hrelays : h.relays step = none)
      (hheld : h'.heldRemote = []) (hsent : h'.sent = h.sent ++ keyEvents false h.heldRemote)
  | crosses (keys : List Key) (hsite : h.det.site = .local) (hremote : h'.det.site = .remote)
      (hrelays : h.relays step = none) (hheld : h'.heldRemote = h.heldRemote ++ keys)
      (hsent : h'.sent = h.sent ++ keyEvents true keys)
  | moves (hsite : h.det.site = .remote) (hremote : h'.det.site = .remote)
      (hrelays : h.relays step = none) (hheld : h'.heldRemote = h.heldRemote)
      (hsent : h'.sent = h.sent ++ [.mouseMoveAbs h'.vrx h'.vry])
  | returns (hsite : h.det.site = .remote) (hlocal : h'.det.site = .local)
      (hrelays : h.relays step = none) (hheld : h'.heldRemote = [])
      (hsent : h'.sent = h.sent ++ .mouseMoveAbs h'.vrx h'.vry :: keyEvents false h.heldRemote)
  | relay (ev : InputEvent) (hsite : h.det.site = .remote) (hremote : h'.det.site = .remote)
      (hrelays : h.relays step = some ev) (hheld : h'.heldRemote = heldAfter h.heldRemote ev)
      (hsent : h'.sent = h.sent ++ [ev])

theorem hostHead_sends {x : Crates} (hsends : x.Sends) (h : HostInput) (edge : ScreenEdge) (snapUi : Bool) :
    StepSends h (.head edge snapUi) (hostHead x h edge snapUi) := by
  have hturn := hostHead_turn x h edge snapUi
  generalize hostHead x h edge snapUi = h' at hturn
  rcases hturn with hkeep | ⟨hsite, hasked, hsent, hdoes⟩
  · exact .quiet rfl rfl rfl rfl
  · refine .snaps hsite ?_ rfl hdoes.heldRemote ?_
    · rw [hdoes.det]
      have hsite' : (h.det.setEdge edge).site = .remote := hsite
      rw [EdgeDetector.forceHome, if_pos hsite']
    · rw [hdoes.sent]
      simp only [List.filterMap_append, sent_of_sentBy hsends hsent]
      simp [List.filterMap_cons, Deed.sent?, sent, deeds]

theorem hostPoll_sends {x : Crates} (hsends : x.Sends) (ar : Arith) (desktop : Rect) (h : HostInput)
    (captured : Option CapturedEvent) (edgeNow : ScreenEdge) :
    StepSends h (.poll captured edgeNow) (hostPoll x ar desktop h captured edgeNow) := by
  have hturn := hostPoll_turn x ar desktop h captured edgeNow
  generalize hostPoll x ar desktop h captured edgeNow = h' at hturn ⊢
  rcases hturn with _ | ⟨hsite, hupdate⟩ | ⟨hsite, hupdate, hremote, hsent, hdoes⟩ |
    ⟨hsite, hremote, hsent, hdoes⟩ | ⟨hsite, hlocal, hsent, hreleased, hdoes⟩ | hchord |
    ⟨hchord, hsite⟩ | ⟨hchord, hsite, hsent, hdoes⟩ | ⟨hev, hsite⟩ | @⟨ev, _, _, _, hev, hsite, hsent, hdoes⟩
  · exact .quiet rfl rfl rfl rfl
  · exact .quiet rfl rfl rfl rfl
  · refine .crosses _ hsite ?_ rfl hdoes.heldRemote ?_
    · rw [hdoes.det]
      exact hremote
    · rw [hdoes.sent]
      simp only [List.filterMap_append, sent_of_sentBy hsends hsent]
      simp [List.filterMap_cons, Deed.sent?, sent, deeds]
  · refine .moves hsite ?_ rfl hdoes.heldRemote ?_
    · rw [hdoes.det]
      exact hremote
    · rw [hdoes.sent, sent_of_sentBy hsends hsent, hdoes.vr.1, hdoes.vr.2]
      rfl
  · refine .returns hsite ?_ rfl hdoes.heldRemote ?_
    · rw [hdoes.det]
      exact hlocal
    · rw [hdoes.sent, hdoes.vr.1, hdoes.vr.2]
      simp only [List.filterMap_append, sent_of_sentBy hsends hsent, sent_of_sentBy hsends hreleased]
      simp [List.filterMap_cons, Deed.sent?, sent, deeds, moveVirtual]
  · exact .quiet rfl (by simp [relays, hchord]) rfl rfl
  · refine .quiet (by simp) (by simp [relays, hsite]) ?_ ?_
    · simp
    · simp [sent, deeds]
  · refine .relay (.key _ _) hsite ?_ (by simp [relays, hsite, hchord]) hdoes.heldRemote ?_
    · rw [hdoes.det]
      simpa using hsite
    · rw [hdoes.sent, sent_of_sentBy hsends hsent]
      simp [sent, deeds]
  · exact .quiet rfl (by simp [relays_other hev, hsite]) rfl rfl
  · refine .relay ev hsite ?_ (by simp [relays_other hev, hsite]) ?_ ?_
    · rw [hdoes.det]
      exact hsite
    · rw [hdoes.heldRemote]
      cases ev with
      | key key pressed => exact absurd rfl (hev key pressed)
      | _ => rfl
    · rw [hdoes.sent, sent_of_sentBy hsends hsent]

/-- Every step sends one of six things. -/
theorem loopStep_sends {x : Crates} (hsends : x.Sends) (ar : Arith) (desktop : Rect) (h : HostInput)
    (step : LoopStep) : StepSends h step (loopStep x ar desktop h step) := by
  cases step with
  | head edge snapUi => exact hostHead_sends hsends h edge snapUi
  | poll captured edgeNow => exact hostPoll_sends hsends ar desktop h captured edgeNow

/-- The input events relayed by a run. -/
def relayed (x : Crates) (ar : Arith) (desktop : Rect) (h : HostInput) : List LoopStep → List InputEvent
  | [] => []
  | step :: steps => (h.relays step).toList ++ relayed x ar desktop (loopStep x ar desktop h step) steps

end ScreenLink
