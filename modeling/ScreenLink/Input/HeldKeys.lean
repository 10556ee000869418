import ScreenLink.Input.Turns

/-!
# The keys the peer believes are down

The loop seen through `KeyView`: the site, the two lists, and the log of key events sent. Each turn of the loop does
one of a few things to the view (`home`, `cross`, `track`, `relay`), and each of these keeps `KeyView.Good`: the remote
list tracks the log, it is empty while control is local, and while control is remote its modifiers are the modifiers
held locally (`held_keys_correct`). The two lists change together: seeding on the crossing makes them agree, and from
there each modifier event changes both.
-/

namespace ScreenLink

open HeldKeys

/-- The key event in a packet. -/
def HostOut.key? : HostOut → Option (Key × Bool)
  | .udp (.key key pressed) _ => some (key, pressed)
  | _ => none

/-- The key event in a captured event. -/
def HostTick.key? (tick : HostTick) : Option (Key × Bool) :=
  match tick.captured with
  | some (.input (.key key pressed)) => some (key, pressed)
  | _ => none

/-- The key events sent to the peer. -/
def HostInput.keysSent (h : HostInput) : List (Key × Bool) := h.out.filterMap HostOut.key?

/-- The key events captured. -/
def keysCaptured (ticks : List HostTick) : List (Key × Bool) := ticks.filterMap HostTick.key?

/-- What the key invariant is about. -/
structure KeyView where
  site : ControlSite
  mods : List Key
  held : List Key
  log : List (Key × Bool)

def HostInput.view (h : HostInput) : KeyView := ⟨h.det.site, h.heldModsLocal, h.heldRemote, h.keysSent⟩

namespace KeyView

/-- Control comes home: everything held is released. -/
def home (v : KeyView) : KeyView where
  site := .local
  mods := v.mods
  held := []
  log := v.log ++ v.held.flatMap fun key => List.replicate MOD_SYNC_REPEAT (key, false)

def seed (v : KeyView) (key : Key) : KeyView :=
  if key ∈ v.held then v
  else { v with held := v.held ++ [key], log := v.log ++ List.replicate MOD_SYNC_REPEAT (key, true) }

/-- Control crosses: the modifiers held locally are pressed. -/
def cross (v : KeyView) : KeyView := v.mods.foldl seed { v with site := .remote }

/-- A captured key event, as the local list sees it. -/
def track (v : KeyView) (key : Key) (pressed : Bool) : KeyView :=
  if isModifier key then { v with mods := if pressed then press v.mods key else release v.mods key } else v

/-- A key event sent to the peer. -/
def relay (v : KeyView) (key : Key) (pressed : Bool) : KeyView :=
  { v with
    held := if pressed then press v.held key else release v.held key
    log := v.log ++ [(key, pressed)] }

end KeyView

/-! ### What a turn does to the view -/

/-- The key event in a deed. -/
def Deed.key? : Deed → Option (Key × Bool)
  | .sent (.key key pressed) => some (key, pressed)
  | _ => none

/-- What is logged when the keys are pressed or released on the peer. -/
def keyLog (pressed : Bool) (keys : List Key) : List (Key × Bool) :=
  keys.flatMap fun key => List.replicate MOD_SYNC_REPEAT (key, pressed)

theorem KeyView.seedAll_eq (keys : List Key) (v : KeyView) :
    keys.foldl seed v =
      { v with held := v.held ++ newlyHeld v.held keys, log := v.log ++ keyLog true (newlyHeld v.held keys) } := by
  induction keys generalizing v with
  | nil => simp [newlyHeld, keyLog]
  | cons key keys ih =>
    rw [List.foldl_cons, ih]
    by_cases hmem : key ∈ v.held
    · have hseed : v.seed key = v := by rw [seed, if_pos hmem]
      rw [hseed, newlyHeld, if_pos hmem]
    · have hseed : v.seed key =
          { v with held := v.held ++ [key], log := v.log ++ List.replicate MOD_SYNC_REPEAT (key, true) } := by
        rw [seed, if_neg hmem]
      rw [hseed, newlyHeld, if_neg hmem]
      simp [keyLog]

namespace HostInput

variable {x : Crates} {h h' : HostInput} {ds : List Deed}

theorem keysSent_deeds (h : HostInput) : h.keysSent = h.deeds.filterMap Deed.key? := by
  rw [keysSent, deeds, List.filterMap_map]
  refine List.filterMap_congr fun o _ => ?_
  rcases o with ⟨ev, packet⟩ | msg | event | on | ⟨px, py⟩
  · cases ev <;> rfl
  all_goals rfl

theorem Does.view (hdoes : Does h ds h') :
    h'.view = { h.view with log := h.view.log ++ ds.filterMap Deed.key? } := by
  have hlog : h'.keysSent = h.keysSent ++ ds.filterMap Deed.key? := by
    rw [keysSent_deeds, hdoes.deeds, List.filterMap_append, ← keysSent_deeds]
  obtain ⟨rt, sealed, out, rfl, -⟩ := hdoes
  simp only [HostInput.view, hlog]

theorem keys_keyEvents (pressed : Bool) (keys : List Key) :
    ((keyEvents pressed keys).map Deed.sent).filterMap Deed.key? = keyLog pressed keys := by
  induction keys with
  | nil => rfl
  | cons key keys ih =>
    have hsplit : keyEvents pressed (key :: keys) =
        List.replicate MOD_SYNC_REPEAT (.key key pressed) ++ keyEvents pressed keys := rfl
    have hkey : Deed.key? (.sent (.key key pressed)) = some (key, pressed) := rfl
    rw [hsplit, List.map_append, List.filterMap_append, ih, List.map_replicate, List.filterMap_replicate_of_some hkey]
    rfl

theorem keys_of_sentBy (hsends : x.Sends) {pressed : Bool} {keys : List Key}
    (hsent : x.SentBy (keyEvents pressed keys) ds) : ds.filterMap Deed.key? = keyLog pressed keys := by
  rw [hsent.all hsends, keys_keyEvents]

theorem no_keys_of_sentBy {ev : InputEvent} (hev : ∀ key pressed, ev ≠ .key key pressed) (hsent : x.SentBy [ev] ds) :
    ds.filterMap Deed.key? = [] := by
  rw [List.filterMap_eq_nil_iff]
  intro d hd
  obtain ⟨ev', hev', rfl⟩ := hsent.mem hd
  obtain rfl := List.mem_singleton.mp hev'
  cases ev' with
  | key key pressed => exact absurd rfl (hev key pressed)
  | _ => rfl

theorem view_trackLocal (h : HostInput) (key : Key) (pressed : Bool) :
    (h.trackLocal key pressed).view = h.view.track key pressed := by
  unfold trackLocal KeyView.track
  split_ifs <;> rfl

theorem view_cross (hsends : x.Sends) {det : EdgeDetector} {vrx vry : F32} {absX absY : Int}
    (hremote : det.site = .remote) (hsent : x.SentBy (keyEvents true (newlyHeld h.heldRemote h.heldModsLocal)) ds)
    (hdoes : Does
      { h with
        det := det
        vrx := vrx
        vry := vry
        heldRemote := h.heldRemote ++ newlyHeld h.heldRemote h.heldModsLocal }
      ([.suppress true, .park absX absY, .ctrl (.edgeEnter vrx vry)] ++ ds ++ [.event (.controlOnRemote true)]) h') :
    h'.view = h.view.cross := by
  rw [hdoes.view, KeyView.cross, KeyView.seedAll_eq]
  simp only [List.filterMap_append, keys_of_sentBy hsends hsent]
  simp [List.filterMap_cons, HostInput.view, keysSent, Deed.key?, hremote]

end HostInput

/-! ### The invariant -/

namespace KeyView

/-- What holds between two iterations, after the captured key events `captured`. -/
structure Good (captured : List (Key × Bool)) (v : KeyView) : Prop where
  /-- The remote list is what the peer has been told. -/
  tracks : Tracks v.held v.log
  atHome : v.site = .local → v.held = []
  away : v.site = .remote → ∀ key, isModifier key = true → (key ∈ v.held ↔ key ∈ v.mods)
  mods : ∀ key, key ∈ v.mods ↔ isModifier key = true ∧ Down captured key

variable {captured : List (Key × Bool)} {v : KeyView}

theorem good_start : Good [] ⟨.local, [], [], []⟩ where
  tracks := .nil
  atHome _ := rfl
  away h := by cases h
  mods := by simp

theorem Good.home (h : Good captured v) : Good captured v.home where
  tracks := h.tracks.releaseAll (by decide)
  atHome _ := rfl
  away h := by cases h
  mods := h.mods

theorem tracks_seed (h : Tracks v.held v.log) (key : Key) : Tracks (v.seed key).held (v.seed key).log := by
  have hpress := h.press (n := MOD_SYNC_REPEAT) (by decide) key
  unfold seed
  by_cases hmem : key ∈ v.held
  · rw [if_pos hmem]
    exact h
  · rw [if_neg hmem]
    rwa [press, if_neg hmem] at hpress

theorem seedAll_spec (keys : List Key) (v : KeyView) (h : Tracks v.held v.log) :
    Tracks (keys.foldl seed v).held (keys.foldl seed v).log ∧ (keys.foldl seed v).site = v.site ∧
      (keys.foldl seed v).mods = v.mods ∧
      ∀ key, key ∈ (keys.foldl seed v).held ↔ key ∈ keys ∨ key ∈ v.held := by
  induction keys generalizing v with
  | nil => simp [h]
  | cons key keys ih =>
    obtain ⟨htracks, hsite, hmods, hheld⟩ := ih (v.seed key) (tracks_seed h key)
    rw [List.foldl_cons]
    refine ⟨htracks, ?_, ?_, fun other => ?_⟩
    · rw [hsite, seed]
      split_ifs <;> rfl
    · rw [hmods, seed]
      split_ifs <;> rfl
    · rw [hheld, seed]
      split_ifs with hmem
      · rw [List.mem_cons]
        constructor
        · rintro (hj | hj)
          · exact Or.inl (Or.inr hj)
          · exact Or.inr hj
        · rintro ((rfl | hj) | hj)
          · exact Or.inr hmem
          · exact Or.inl hj
          · exact Or.inr hj
      · simp only [List.mem_append, List.mem_cons]
        tauto

theorem Good.cross (h : Good captured v) (hsite : v.site = .local) : Good captured v.cross := by
  have hempty : v.held = [] := h.atHome hsite
  obtain ⟨htracks, hremote, hmods, hheld⟩ := seedAll_spec v.mods { v with site := .remote } h.tracks
  refine ⟨htracks, fun hlocal => ?_, fun _ key _ => ?_, fun key => ?_⟩
  · rw [KeyView.cross, hremote] at hlocal
    cases hlocal
  · rw [KeyView.cross, hheld, hmods, hempty]
    simp
  · rw [KeyView.cross, hmods]
    exact h.mods key

theorem mem_mods_track (h : Good captured v) (key : Key) (pressed : Bool) (other : Key) :
    other ∈ (v.track key pressed).mods ↔ isModifier other = true ∧ Down (captured ++ [(key, pressed)]) other := by
  rw [down_snoc]
  have hj := h.mods other
  unfold track
  by_cases hmod : isModifier key = true
  · rw [if_pos hmod]
    cases pressed with
    | true =>
      simp only [if_true, mem_press, hj]
      by_cases hjk : key = other
      · subst hjk
        simp [hmod]
      · simp [hjk, Ne.symm hjk]
    | false =>
      simp only [Bool.false_eq_true, if_false, mem_release, hj]
      by_cases hjk : key = other
      · simp [hjk]
      · simp [hjk, Ne.symm hjk]
  · rw [if_neg hmod, hj]
    by_cases hjk : key = other
    · subst hjk
      simp [hmod]
    · simp [hjk]

/-- A captured key that is not relayed: at home, or no modifier. -/
theorem Good.track (h : Good captured v) (key : Key) (pressed : Bool)
    (hkey : v.site = .local ∨ isModifier key = false) : Good (captured ++ [(key, pressed)]) (v.track key pressed) := by
  refine ⟨?_, ?_, ?_, mem_mods_track h key pressed⟩
  · unfold KeyView.track
    split_ifs <;> exact h.tracks
  · unfold KeyView.track
    split_ifs <;> exact h.atHome
  · intro hsite
    rcases hkey with hlocal | hmod
    · have hsite' : v.site = .remote := by
        unfold KeyView.track at hsite
        split_ifs at hsite <;> exact hsite
      rw [hlocal] at hsite'
      cases hsite'
    · rw [KeyView.track, if_neg (by simp [hmod])] at hsite ⊢
      exact h.away hsite

/-- A captured key that is relayed changes both lists in the same way. -/
theorem Good.relay (h : Good captured v) (key : Key) (pressed : Bool) (hsite : v.site = .remote) :
    Good (captured ++ [(key, pressed)]) ((v.track key pressed).relay key pressed) := by
  have hheld : (v.track key pressed).held = v.held := by
    unfold KeyView.track
    split_ifs <;> rfl
  have hlog : (v.track key pressed).log = v.log := by
    unfold KeyView.track
    split_ifs <;> rfl
  have hremote : (v.track key pressed).site = .remote := by
    unfold KeyView.track
    split_ifs <;> exact hsite
  refine ⟨?_, fun hlocal => ?_, fun _ other hj => ?_, mem_mods_track h key pressed⟩
  · simp only [KeyView.relay, hheld, hlog]
    cases pressed with
    | true => exact h.tracks.press (n := 1) (by decide) key
    | false => exact h.tracks.release (n := 1) (by decide) key
  · rw [KeyView.relay, hremote] at hlocal
    cases hlocal
  · have hold := h.away hsite other hj
    simp only [KeyView.relay, KeyView.track]
    by_cases hmod : isModifier key = true
    · rw [if_pos hmod]
      cases pressed <;> simp [hold]
    · -- another key than `other`: neither list changes at `other`
      have hne : other ≠ key := fun heq => hmod (heq ▸ hj)
      rw [if_neg hmod]
      cases pressed <;> simp [hold, hne]

end KeyView

/-! ### One iteration, and a run -/

/-- The key event a step finds captured. -/
def LoopStep.key? : LoopStep → Option (Key × Bool)
  | .poll (some (.input (.key key pressed))) _ => some (key, pressed)
  | _ => none

theorem LoopStep.key?_other {ev : InputEvent} (hev : ∀ key pressed, ev ≠ .key key pressed) (edgeNow : ScreenEdge) :
    (LoopStep.poll (some (.input ev)) edgeNow).key? = none := by
  cases ev with
  | key key pressed => exact absurd rfl (hev key pressed)
  | _ => rfl

theorem hostHead_good {x : Crates} (hsends : x.Sends) {captured : List (Key × Bool)} {h : HostInput}
    (hgood : h.view.Good captured) (edge : ScreenEdge) (snapUi : Bool) :
    (hostHead x h edge snapUi).view.Good captured := by
  have hturn := hostHead_turn x h edge snapUi
  generalize hostHead x h edge snapUi = h' at hturn
  rcases hturn with hkeep | ⟨hsite, hasked, hsent, hdoes⟩
  · exact hgood
  · have hlocal : (h.det.setEdge edge).forceHome.1.site = .local := by
      have hsite' : (h.det.setEdge edge).site = .remote := hsite
      rw [EdgeDetector.forceHome, if_pos hsite']
    have hview : h'.view = h.view.home := by
      rw [hdoes.view]
      simp only [List.filterMap_append, HostInput.keys_of_sentBy hsends hsent]
      simp [List.filterMap_cons, KeyView.home, HostInput.view, HostInput.keysSent, keyLog, Deed.key?, hlocal]
    rw [hview]
    exact hgood.home

theorem hostPoll_good {x : Crates} (hsends : x.Sends) (ar : Arith) (desktop : Rect) {captured : List (Key × Bool)}
    {h : HostInput} (hgood : h.view.Good captured) (event : Option CapturedEvent) (edgeNow : ScreenEdge) :
    (hostPoll x ar desktop h event edgeNow).view.Good
      (captured ++ (LoopStep.poll event edgeNow).key?.toList) := by
  have hturn := hostPoll_turn x ar desktop h event edgeNow
  generalize hostPoll x ar desktop h event edgeNow = h' at hturn
  have hquiet : ∀ {g : HostInput}, g.view = h.view → g.view.Good (captured ++ []) := by
    intro g hview
    rw [hview, List.append_nil]
    exact hgood
  rcases hturn with _ | ⟨hsite, hupdate⟩ | ⟨hsite, hupdate, hremote, hsent, hdoes⟩ |
    ⟨hsite, hremote, hsent, hdoes⟩ | ⟨hsite, hlocal, hsent, hreleased, hdoes⟩ | @⟨key, pressed, _, hchord⟩ |
    @⟨key, pressed, _, hchord, hsite⟩ | @⟨key, pressed, _, ds, _, hchord, hsite, hsent, hdoes⟩ | @⟨ev, _, hev, hsite⟩ |
    @⟨ev, _, _, _, hev, hsite, hsent, hdoes⟩
  · exact hquiet rfl
  · exact hquiet rfl
  · -- the modifiers held locally are pressed
    show h'.view.Good (captured ++ [])
    rw [HostInput.view_cross hsends hremote hsent hdoes, List.append_nil]
    exact hgood.cross hsite
  · refine hquiet ?_
    rw [hdoes.view, HostInput.no_keys_of_sentBy (by simp) hsent, List.append_nil]
    simp [HostInput.view, HostInput.keysSent, HostInput.moveVirtual, hremote, hsite]
  · have hview : h'.view = h.view.home := by
      rw [hdoes.view]
      simp only [List.filterMap_append, HostInput.no_keys_of_sentBy (by simp) hsent,
        HostInput.keys_of_sentBy hsends hreleased]
      simp [List.filterMap_cons, KeyView.home, HostInput.view, HostInput.keysSent, HostInput.moveVirtual, keyLog,
        Deed.key?, hlocal]
    show h'.view.Good (captured ++ [])
    rw [hview, List.append_nil]
    exact hgood.home
  · -- the last key of the chord is no modifier, and is not relayed
    have hmod := HostInput.onKey_chord h.hotkey key pressed hchord
    have hview : h.view = h.view.track key pressed := by rw [KeyView.track, if_neg (by simp [hmod])]
    show h.view.Good (captured ++ [(key, pressed)])
    rw [hview]
    exact hgood.track key pressed (Or.inr hmod)
  · show (h.trackLocal key pressed).view.Good (captured ++ [(key, pressed)])
    rw [HostInput.view_trackLocal]
    exact hgood.track key pressed (Or.inl hsite)
  · have hlog : ds.filterMap Deed.key? = [(key, pressed)] := by
      rw [hsent.all hsends]
      rfl
    have hview : h'.view = (h.view.track key pressed).relay key pressed := by
      rw [hdoes.view, hlog, ← HostInput.view_trackLocal, KeyView.relay]
      simp only [HostInput.view, HostInput.trackLocal]
      split_ifs <;> rfl
    show h'.view.Good (captured ++ [(key, pressed)])
    rw [hview]
    exact hgood.relay key pressed hsite
  · rw [LoopStep.key?_other hev edgeNow]
    exact hquiet rfl
  · rw [LoopStep.key?_other hev edgeNow]
    refine hquiet ?_
    rw [hdoes.view, HostInput.no_keys_of_sentBy hev hsent, List.append_nil]

theorem view_of_crosses {x : Crates} (hsends : x.Sends) (ar : Arith) (desktop : Rect) {h : HostInput} {step : LoopStep}
    (hlocal : h.det.site = .local) (hremote : (loopStep x ar desktop h step).det.site = .remote) :
    (loopStep x ar desktop h step).view = h.view.cross ∧ step.key? = none := by
  have habsurd : ∀ {P : Prop}, h.det.site = .remote → P := fun hsite => nomatch hlocal.symm.trans hsite
  have hstays : ∀ {P : Prop} {h' : HostInput}, h'.det.site = .remote → h'.det.site = h.det.site → P :=
    fun hsite heq => habsurd (heq.symm.trans hsite)
  cases step with
  | head edge snapUi =>
    have hturn := hostHead_turn x h edge snapUi
    change (hostHead x h edge snapUi).det.site = .remote at hremote
    generalize hostHead x h edge snapUi = h' at hturn hremote
    rcases hturn with hkeep | ⟨hsite, -⟩
    · exact hstays hremote rfl
    · exact habsurd hsite
  | poll event edgeNow =>
    have hturn := hostPoll_turn x ar desktop h event edgeNow
    change (hostPoll x ar desktop h event edgeNow).det.site = .remote at hremote
    change (hostPoll x ar desktop h event edgeNow).view = _ ∧ _
    generalize hostPoll x ar desktop h event edgeNow = h' at hturn hremote ⊢
    rcases hturn with _ | ⟨hsite, hupdate⟩ | ⟨hsite, hupdate, hsite', hsent, hdoes⟩ | ⟨hsite, -⟩ | ⟨hsite, -⟩ | hchord |
      ⟨hchord, hsite⟩ | ⟨-, hsite, -⟩ | ⟨hev, hsite⟩ | ⟨-, hsite, -⟩
    · exact hstays hremote rfl
    · exact hstays hremote rfl
    · exact ⟨HostInput.view_cross hsends hsite' hsent hdoes, rfl⟩
    · exact habsurd hsite
    · exact habsurd hsite
    · exact hstays hremote rfl
    · exact hstays hremote (by simp)
    · exact habsurd hsite
    · exact hstays hremote rfl
    · exact habsurd hsite

theorem loopStep_good {x : Crates} (hsends : x.Sends) (ar : Arith) (desktop : Rect) {captured : List (Key × Bool)}
    {h : HostInput} (hgood : h.view.Good captured) (step : LoopStep) :
    (loopStep x ar desktop h step).view.Good (captured ++ step.key?.toList) := by
  cases step with
  | head edge snapUi =>
    show (hostHead x h edge snapUi).view.Good (captured ++ [])
    rw [List.append_nil]
    exact hostHead_good hsends hgood edge snapUi
  | poll event edgeNow => exact hostPoll_good hsends ar desktop hgood event edgeNow

theorem hostRun_good {x : Crates} (hsends : x.Sends) (ar : Arith) (desktop : Rect) (edge : ScreenEdge)
    (hysteresis : Int) (rt : RealtimeCrypto) (steps : List LoopStep) :
    (hostRun x ar desktop (.start edge hysteresis rt) steps).view.Good (steps.filterMap LoopStep.key?) := by
  induction steps using List.reverseRecOn with
  | nil => exact KeyView.good_start
  | append_singleton steps step ih =>
    have hkeys : (steps ++ [step]).filterMap LoopStep.key? =
        steps.filterMap LoopStep.key? ++ step.key?.toList := by
      rw [List.filterMap_append]
      cases hstep : step.key? <;> simp [hstep]
    rw [hostRun_snoc, hkeys]
    exact loopStep_good hsends ar desktop ih step

theorem key?_poll (tick : HostTick) : (LoopStep.poll tick.captured tick.edgeNow).key? = tick.key? := by
  unfold LoopStep.key? HostTick.key?
  rcases tick.captured with _ | (_ | ev)
  · rfl
  · rfl
  · cases ev <;> rfl

theorem keys_stepsOf (ticks : List HostTick) : (stepsOf ticks).filterMap LoopStep.key? = keysCaptured ticks := by
  induction ticks with
  | nil => rfl
  | cons tick ticks ih =>
    have hsteps : tick.steps.filterMap LoopStep.key? = [tick].filterMap HostTick.key? := by
      show [LoopStep.poll tick.captured tick.edgeNow].filterMap LoopStep.key? = _
      simp only [List.filterMap_cons, List.filterMap_nil, key?_poll]
    rw [stepsOf, List.flatMap_cons, ← stepsOf, List.filterMap_append, ih, hsteps, keysCaptured, keysCaptured,
      ← List.filterMap_append, List.singleton_append]

theorem hostLoop_good {x : Crates} (hsends : x.Sends) (ar : Arith) (desktop : Rect) (edge : ScreenEdge)
    (hysteresis : Int) (rt : RealtimeCrypto) (ticks : List HostTick) :
    (hostLoop x ar desktop (.start edge hysteresis rt) ticks).view.Good (keysCaptured ticks) := by
  rw [hostLoop_eq, ← keys_stepsOf]
  exact hostRun_good hsends ar desktop edge hysteresis rt (stepsOf ticks)

/-- Between any two iterations, for any captured events, snap-home requests and edge settings: `heldRemote` holds
each key at most once, and exactly the keys whose last event sent was a press; it is empty while control is local;
while control is remote its modifiers are those of `heldModsLocal`, which are the modifiers whose last captured event
was a press. -/
theorem held_keys_correct {x : Crates} (hsends : x.Sends) (ar : Arith) (desktop : Rect) (edge : ScreenEdge)
    (hysteresis : Int) (rt : RealtimeCrypto) (ticks : List HostTick) :
    let h := hostLoop x ar desktop (.start edge hysteresis rt) ticks
    h.heldRemote.Nodup ∧ (∀ key, key ∈ h.heldRemote ↔ Down h.keysSent key) ∧
      (h.det.site = .local → h.heldRemote = []) ∧
      (h.det.site = .remote → ∀ key, isModifier key = true → (key ∈ h.heldRemote ↔ key ∈ h.heldModsLocal)) ∧
      (∀ key, key ∈ h.heldModsLocal ↔ isModifier key = true ∧ Down (keysCaptured ticks) key) :=
  have hgood := hostLoop_good hsends ar desktop edge hysteresis rt ticks
  ⟨hgood.tracks.nodup, hgood.tracks.mem_iff, hgood.atHome, hgood.away, hgood.mods⟩

/-- ChaCha20-Poly1305 under the key `7, 7, …` and the associated data of epoch 1, on the first three packets of a
crossing with the left Shift key held; empty elsewhere. -/
def shiftAead : Aead where
  encrypt key nonce msg aad :=
    if key = Vector.replicate 32 7 ∧ msg = [4, 50, 1] ∧ aad = beBytes 1 then
      if nonce = RealtimeCrypto.nonce SALT_INITIATOR 0 then
        some [106, 225, 82, 250, 171, 80, 204, 226, 128, 82, 156, 225, 157, 162, 98, 30, 248, 139, 84]
      else if nonce = RealtimeCrypto.nonce SALT_INITIATOR 1 then
        some [13, 160, 247, 24, 190, 219, 146, 125, 215, 124, 37, 39, 136, 103, 139, 33, 223, 56, 178]
      else if nonce = RealtimeCrypto.nonce SALT_INITIATOR 2 then
        some [51, 51, 14, 249, 241, 83, 54, 183, 53, 202, 157, 122, 241, 81, 161, 167, 234, 146, 136]
      else some []
    else some []
  decrypt _ _ _ _ := none
  error := "aead::Error"

def shiftCrates : Crates where
  sha256 _ := Vector.replicate 32 0
  aead := shiftAead
  encodeInput ev := if ev = .key .shiftLeft true then some [4, 50, 1] else some []
  decodeInput bytes := if bytes = [4, 50, 1] then some (.key .shiftLeft true) else none
  encodeChunk _ := none
  debugMsg _ := ""

theorem shiftCrates_sends : shiftCrates.Sends := by
  intro ev
  have henc : ∀ payload key nonce aad, (shiftAead.encrypt key nonce payload aad).isSome := by
    intro payload key nonce aad
    simp only [shiftAead]
    split_ifs <;> rfl
  by_cases hev : ev = .key .shiftLeft true
  · exact ⟨[4, 50, 1], if_pos hev, henc _⟩
  · exact ⟨[], if_neg hev, henc _⟩

/-- Shift goes down, and the cursor crosses the right edge. -/
def shiftTicks : List HostTick :=
  [⟨.right, false, some (.input (.key .shiftLeft true)), .right⟩,
    ⟨.right, false, some (.move 5 0 1919 540), .right⟩]

theorem held_keys_correct_shiftTicks :
    let h := hostLoop shiftCrates .exact ⟨0, 0, 1920, 1080⟩
      (.start .right 25 (RealtimeCrypto.new (Vector.replicate 32 7) 1 true)) shiftTicks
    h.heldRemote = [.shiftLeft] ∧ ∀ key, key ∈ h.heldRemote ↔ Down h.keysSent key :=
  ⟨by decide +kernel, (held_keys_correct shiftCrates_sends .exact ⟨0, 0, 1920, 1080⟩ .right 25
    (RealtimeCrypto.new (Vector.replicate 32 7) 1 true) shiftTicks).2.1⟩

end ScreenLink
