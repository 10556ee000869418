import ScreenLink.Input.HeldKeys

/-!
# Who is told where control is

Three observers are told by hand: the UI (`ControlOnRemote`), the capturer (`set_suppress`) and the peer
(`EdgeEnter`, `EdgeLeave`). The crossing and the return through the edge tell all three. Snapping home does not tell
the UI, and the exit only tells the capturer. So they agree with the detector at every iteration boundary, and after
the exit, exactly as long as no iteration brings control home by a snap without crossing again, and the loop exits
while control is local (`observers_agree_iff`).
-/

namespace ScreenLink

/-- Whether control is on the remote, as the UI, the capturer and the peer have last been told. -/
structure Told where
  ui : Bool
  suppress : Bool
  peer : Bool
  deriving DecidableEq

namespace Told

/-- All three have been told the same. -/
def all (on : Bool) : Told := ⟨on, on, on⟩

def hear (t : Told) : Deed → Told
  | .event (.controlOnRemote on) => { t with ui := on }
  | .suppress on => { t with suppress := on }
  | .ctrl (.edgeEnter _ _) => { t with peer := true }
  | .ctrl .edgeLeave => { t with peer := false }
  | _ => t

theorem hear_sent {x : Crates} {evs : List InputEvent} {ds : List Deed} (hds : x.SentBy evs ds) (t : Told) :
    ds.foldl hear t = t := hds.foldl_eq (fun _ _ => rfl) t

end Told

namespace HostInput

def told (h : HostInput) : Told := h.deeds.foldl Told.hear (.all false)

/-- The observers and the detector agree. -/
def Agreed (h : HostInput) : Prop := h.told = .all (decide (h.det.site = .remote))

instance (h : HostInput) : Decidable h.Agreed := inferInstanceAs (Decidable (_ = _))

theorem Does.told {h h' : HostInput} {ds : List Deed} (hdoes : Does h ds h') :
    h'.told = ds.foldl Told.hear h.told := by
  rw [HostInput.told, hdoes.deeds, List.foldl_append]
  rfl

end HostInput

/-- The captured event takes control across the edge. -/
def EdgeDetector.crosses (ar : Arith) (desktop : Rect) (det : EdgeDetector) : Option CapturedEvent → Bool
  | some (.move _ _ absX absY) => (det.updateLocal ar absX absY desktop).2.isSome
  | _ => false

theorem told_poll (x : Crates) (ar : Arith) (desktop : Rect) (h : HostInput) (captured : Option CapturedEvent)
    (edgeNow : ScreenEdge) :
    let h' := hostPoll x ar desktop h captured edgeNow
    (h.det.crosses ar desktop captured = true ∧ h'.told = .all true ∧ h'.det.site = .remote) ∨
      (h.det.site = .remote ∧ h'.told = .all false ∧ h'.det.site = .local) ∨
      ((h.det.site = .local → h.det.crosses ar desktop captured = false) ∧ h'.told = h.told ∧
        h'.det.site = h.det.site) := by
  have hturn := hostPoll_turn x ar desktop h captured edgeNow
  generalize hostPoll x ar desktop h captured edgeNow = h' at hturn
  dsimp only
  rcases hturn with _ | ⟨hsite, hupdate⟩ | ⟨hsite, hupdate, hremote, hsent, hdoes⟩ | ⟨hsite, hremote, hsent, hdoes⟩ |
    ⟨hsite, hlocal, hsent, hreleased, hdoes⟩ | hchord | ⟨hchord, hsite⟩ | ⟨hchord, hsite, hsent, hdoes⟩ |
    ⟨hev, hsite⟩ | ⟨hev, hsite, hsent, hdoes⟩
  · exact Or.inr (Or.inr ⟨fun _ => rfl, rfl, rfl⟩)
  · refine Or.inr (Or.inr ⟨fun _ => ?_, rfl, rfl⟩)
    rw [EdgeDetector.crosses, hupdate]
    rfl
  · refine Or.inl ⟨?_, ?_, ?_⟩
    · rw [EdgeDetector.crosses, hupdate]
      rfl
    · rw [hdoes.told]
      simp only [List.foldl_append, Told.hear_sent hsent]
      rfl
    · rw [hdoes.det]
      exact hremote
  · refine Or.inr (Or.inr ⟨fun hlocal => ?_, ?_, ?_⟩)
    · rw [hsite] at hlocal
      cases hlocal
    · rw [hdoes.told, Told.hear_sent hsent]
      rfl
    · rw [hdoes.det, hsite]
      exact hremote
  · refine Or.inr (Or.inl ⟨hsite, ?_, ?_⟩)
    · rw [hdoes.told]
      simp only [List.foldl_append, Told.hear_sent hsent, Told.hear_sent hreleased]
      rfl
    · rw [hdoes.det]
      exact hlocal
  · exact Or.inr (Or.inr ⟨fun _ => rfl, rfl, rfl⟩)
  · refine Or.inr (Or.inr ⟨fun _ => rfl, ?_, ?_⟩)
    · simp [HostInput.told, HostInput.deeds]
    · simp
  · refine Or.inr (Or.inr ⟨fun _ => rfl, ?_, ?_⟩)
    · rw [hdoes.told, Told.hear_sent hsent]
      simp [HostInput.told, HostInput.deeds]
    · rw [hdoes.det]
      simp
  · exact Or.inr (Or.inr ⟨fun _ => rfl, rfl, rfl⟩)
  · refine Or.inr (Or.inr ⟨fun _ => rfl, ?_, ?_⟩)
    · rw [hdoes.told, Told.hear_sent hsent]
    · rw [hdoes.det]

theorem told_head (x : Crates) (h : HostInput) (edge : ScreenEdge) (snapUi : Bool) :
    let h' := hostHead x h edge snapUi
    (h.det.site = .remote ∧ (h.snapHome || snapUi) = true ∧
        h'.told = { h.told with suppress := false, peer := false } ∧ h'.det = (h.det.setEdge edge).forceHome.1) ∨
      (¬ (h.det.site = .remote ∧ (h.snapHome || snapUi) = true) ∧ h'.told = h.told ∧
        h'.det = h.det.setEdge edge) := by
  have hturn := hostHead_turn x h edge snapUi
  generalize hostHead x h edge snapUi = h' at hturn
  dsimp only
  rcases hturn with hkeep | ⟨hsite, hasked, hsent, hdoes⟩
  · refine Or.inr ⟨?_, rfl, rfl⟩
    rintro ⟨hsite, hasked⟩
    rcases hkeep with hlocal | hnot
    · rw [hlocal] at hsite
      cases hsite
    · rw [hnot] at hasked
      cases hasked
  · refine Or.inl ⟨hsite, hasked, ?_, hdoes.det⟩
    rw [hdoes.told]
    simp only [List.foldl_append, Told.hear_sent hsent]
    rfl

/-- An iteration that brings control home by a snap, and does not cross again. -/
def SnapsHome (ar : Arith) (desktop : Rect) (h : HostInput) (tick : HostTick) : Prop :=
  h.det.site = .remote ∧ (h.snapHome || tick.snapUi) = true ∧
    (h.det.setEdge tick.edge).forceHome.1.crosses ar desktop tick.captured = false

theorem agreed_iter (x : Crates) (ar : Arith) (desktop : Rect) {h : HostInput} (tick : HostTick) (hagreed : h.Agreed) :
    (hostIter x ar desktop h tick).Agreed ↔ ¬ SnapsHome ar desktop h tick := by
  rw [hostIter_eq]
  have hhead := told_head x h tick.edge tick.snapUi
  generalize hostHead x h tick.edge tick.snapUi = h₁ at hhead
  have hpoll := told_poll x ar desktop h₁ tick.captured tick.edgeNow
  dsimp only at hhead hpoll
  rw [HostInput.Agreed] at hagreed
  rcases hhead with ⟨hsite, hasked, htold, hdet⟩ | ⟨hnot, htold, hdet⟩
  · -- snapped home: the UI is not told
    have hlocal : h₁.det.site = .local := by
      have hsite' : (h.det.setEdge tick.edge).site = .remote := hsite
      rw [hdet, EdgeDetector.forceHome, if_pos hsite']
    rw [hagreed, hsite] at htold
    rcases hpoll with ⟨hcross, htold', hsite'⟩ | ⟨hremote, -, -⟩ | ⟨hcross, htold', hsite'⟩
    · refine iff_of_true ?_ ?_
      · rw [HostInput.Agreed, htold', hsite']
        rfl
      · rintro ⟨-, -, hstays⟩
        rw [← hdet, hcross] at hstays
        cases hstays
    · rw [hlocal] at hremote
      cases hremote
    · refine iff_of_false ?_ (not_not.mpr ⟨hsite, hasked, ?_⟩)
      · rw [HostInput.Agreed, htold', hsite', hlocal, htold]
        decide
      · rw [← hdet]
        exact hcross hlocal
  · refine iff_of_true ?_ fun hsnap => hnot ⟨hsnap.1, hsnap.2.1⟩
    have hsame : h₁.det.site = h.det.site := by rw [hdet, EdgeDetector.setEdge]
    rcases hpoll with ⟨-, htold', hsite'⟩ | ⟨-, htold', hsite'⟩ | ⟨-, htold', hsite'⟩
    · rw [HostInput.Agreed, htold', hsite']
      rfl
    · rw [HostInput.Agreed, htold', hsite']
      rfl
    · rw [HostInput.Agreed, htold', hsite', htold, hsame, hagreed]

theorem agreed_loop (x : Crates) (ar : Arith) (desktop : Rect) (h : HostInput) (ticks : List HostTick)
    (hagreed : h.Agreed) :
    (∀ front back, ticks = front ++ back → (hostLoop x ar desktop h front).Agreed) ↔
      ∀ front tick back, ticks = front ++ tick :: back →
        ¬ SnapsHome ar desktop (hostLoop x ar desktop h front) tick := by
  constructor
  · intro hall front tick back hsplit
    have hnext := hall (front ++ [tick]) back (by rw [hsplit, List.append_assoc, List.singleton_append])
    rw [hostLoop, List.foldl_append] at hnext
    exact (agreed_iter x ar desktop tick (hall front (tick :: back) hsplit)).mp hnext
  · intro hnone front
    induction front using List.reverseRecOn with
    | nil =>
      intro _ _
      exact hagreed
    | append_singleton front tick ih =>
      intro back hsplit
      rw [List.append_assoc, List.singleton_append] at hsplit
      rw [hostLoop, List.foldl_append]
      exact (agreed_iter x ar desktop tick (ih (tick :: back) hsplit)).mpr (hnone front tick back hsplit)

theorem told_exit (h : HostInput) (hagreed : h.Agreed) : h.exit.told = .all false ↔ h.det.site = .local := by
  have htold : h.exit.told = { h.told with suppress := false } := by
    simp [HostInput.told, HostInput.exit, HostInput.emit, HostInput.deeds, HostOut.deed, Told.hear]
  rw [HostInput.Agreed] at hagreed
  rw [htold, hagreed]
  cases h.det.site <;> decide

/-- For any run of the loop: the observers agree with the detector at every iteration boundary, and all say local
after the exit, iff no iteration brings control home by a snap without crossing again, and the loop exits while
control is local. -/
theorem observers_agree_iff (x : Crates) (ar : Arith) (desktop : Rect) (edge : ScreenEdge) (hysteresis : Int)
    (rt : RealtimeCrypto) (ticks : List HostTick) :
    let loop := hostLoop x ar desktop (.start edge hysteresis rt)
    ((∀ front back, ticks = front ++ back → (loop front).Agreed) ∧ (loop ticks).exit.told = .all false) ↔
      (∀ front tick back, ticks = front ++ tick :: back → ¬ SnapsHome ar desktop (loop front) tick) ∧
        (loop ticks).det.site = .local := by
  dsimp only
  have hstart : (HostInput.start edge hysteresis rt).Agreed := rfl
  rw [← agreed_loop x ar desktop _ ticks hstart]
  refine and_congr_right fun hall => told_exit _ ?_
  exact hall ticks [] (List.append_nil ticks).symm

/-- The cursor crosses the right edge, and the user asks to snap home. -/
def snapTicks : List HostTick :=
  [⟨.right, false, some (.move 5 0 1919 540), .right⟩, ⟨.right, true, none, .right⟩]

/-- After a snap home the UI still believes that control is on the remote. -/
theorem snap_not_agreed :
    ¬ (hostLoop shiftCrates .exact ⟨0, 0, 1920, 1080⟩
      (.start .right 25 (RealtimeCrypto.new (Vector.replicate 32 7) 1 true)) snapTicks).Agreed := by
  decide +kernel

end ScreenLink
