import ScreenLink.Input.Sent

/-!
# What is left down

The loop releases the keys it holds for the peer on both ways home, but it keeps no account of the mouse buttons it
has relayed, and stopping releases nothing. The button events sent are the button events captured while control was
remote (`buttonsSent_eq`); while control stays remote the key events sent are, after the modifiers that were down at the
crossing, the key events captured since (`down_keysSent_iff`). So every way of leaving the remote leaves no button down,
and stopping leaves nothing down, exactly when every button pressed on the remote has also been released there by then,
and, if the loop stops while control is remote, every modifier down at the last crossing and every key pressed since has
been released since (`leaves_nothing_down_iff`). A drag during which the user snaps home leaves the button down
(`drag_left_down`).
-/

namespace ScreenLink

open HeldKeys HostInput

/-- The mouse button events sent to the peer. -/
def HostInput.buttonsSent (h : HostInput) : List (MouseButton × Bool) := h.sent.filterMap InputEvent.button?

theorem buttons_keyEvents (pressed : Bool) (keys : List Key) :
    (keyEvents pressed keys).filterMap InputEvent.button? = [] := by
  rw [List.filterMap_eq_nil_iff]
  intro ev hev
  obtain ⟨key, -, hrep⟩ := List.mem_flatMap.mp hev
  rw [List.eq_of_mem_replicate hrep]
  rfl

section
variable {x : Crates} {ar : Arith} {desktop : Rect}

theorem buttonsSent_step (hsends : x.Sends) (h : HostInput) (step : LoopStep) :
    (loopStep x ar desktop h step).buttonsSent =
      h.buttonsSent ++ (h.relays step).toList.filterMap InputEvent.button? := by
  have hmove : ∀ vrx vry, InputEvent.button? (.mouseMoveAbs vrx vry) = none := fun _ _ => rfl
  rw [buttonsSent, buttonsSent]
  rcases loopStep_sends hsends ar desktop h step with
    ⟨-, hrelays, -, hsent⟩ | ⟨-, -, hrelays, -, hsent⟩ | ⟨keys, -, -, hrelays, -, hsent⟩ |
    ⟨-, -, hrelays, -, hsent⟩ | ⟨-, -, hrelays, -, hsent⟩ | ⟨ev, -, -, hrelays, -, hsent⟩
  · simp [hrelays, hsent]
  · simp [hrelays, hsent, buttons_keyEvents]
  · simp [hrelays, hsent, buttons_keyEvents]
  · simp [hrelays, hsent, hmove]
  · simp [hrelays, hsent, hmove, buttons_keyEvents]
  · simp [hrelays, hsent]

variable (x ar desktop)

/-- The button events captured while control is remote. -/
def remoteButtons (h : HostInput) (steps : List LoopStep) : List (MouseButton × Bool) :=
  (relayed x ar desktop h steps).filterMap InputEvent.button?

variable {x ar desktop}

theorem buttonsSent_run (hsends : x.Sends) (h : HostInput) (steps : List LoopStep) :
    (hostRun x ar desktop h steps).buttonsSent = h.buttonsSent ++ remoteButtons x ar desktop h steps := by
  induction steps generalizing h with
  | nil => exact (List.append_nil _).symm
  | cons step steps ih =>
    rw [hostRun, List.foldl_cons, ← hostRun, ih, buttonsSent_step hsends, remoteButtons, remoteButtons, relayed,
      List.filterMap_append, List.append_assoc]

theorem buttonsSent_eq (hsends : x.Sends) (edge : ScreenEdge) (hysteresis : Int) (rt : RealtimeCrypto)
    (steps : List LoopStep) :
    (hostRun x ar desktop (.start edge hysteresis rt) steps).buttonsSent =
      remoteButtons x ar desktop (.start edge hysteresis rt) steps :=
  buttonsSent_run hsends _ steps

theorem keysSent_stays (hsends : x.Sends) {h : HostInput} {step : LoopStep} (hsite : h.det.site = .remote)
    (hremote : (loopStep x ar desktop h step).det.site = .remote) :
    (loopStep x ar desktop h step).keysSent =
      h.keysSent ++ (h.relays step).toList.filterMap InputEvent.key? := by
  have hmove : ∀ vrx vry, InputEvent.key? (.mouseMoveAbs vrx vry) = none := fun _ _ => rfl
  rw [keysSent_eq, keysSent_eq]
  rcases loopStep_sends hsends ar desktop h step with
    ⟨-, hrelays, -, hsent⟩ | ⟨-, hlocal, -⟩ | ⟨keys, hlocal, -⟩ | ⟨-, -, hrelays, -, hsent⟩ | ⟨-, hlocal, -⟩ |
    ⟨ev, -, -, hrelays, -, hsent⟩
  · simp [hrelays, hsent]
  · cases hlocal.symm.trans hremote
  · cases hlocal.symm.trans hsite
  · simp [hrelays, hsent, hmove]
  · cases hlocal.symm.trans hremote
  · simp [hrelays, hsent]

theorem relays_eq_none_of_home (hsends : x.Sends) {h : HostInput} {step : LoopStep}
    (hlocal : (loopStep x ar desktop h step).det.site = .local) : h.relays step = none := by
  rcases loopStep_sends hsends ar desktop h step with
    ⟨-, hrelays, -, -⟩ | ⟨-, -, hrelays, -, -⟩ | ⟨keys, -, -, hrelays, -, -⟩ | ⟨-, -, hrelays, -, -⟩ |
    ⟨-, -, hrelays, -, -⟩ | ⟨ev, -, hsite, -, -, -⟩
  · exact hrelays
  · exact hrelays
  · exact hrelays
  · exact hrelays
  · exact hrelays
  · rw [hlocal] at hsite
    cases hsite

end

/-- No button or key is down. -/
def NothingDown {α : Type*} [DecidableEq α] (log : List (α × Bool)) : Prop := ∀ key, ¬ Down log key

theorem nothingDown_iff {α : Type*} [DecidableEq α] {log : List (α × Bool)} :
    NothingDown log ↔ ∀ e ∈ log, ¬ Down log e.1 := by
  constructor
  · exact fun h e _ => h e.1
  · intro h key hdown
    refine not_down_of_releases (fun hmem => ?_) hdown
    exact h _ hmem hdown

instance {α : Type*} [DecidableEq α] (log : List (α × Bool)) : Decidable (NothingDown log) :=
  decidable_of_iff _ nothingDown_iff.symm

/-- Control is remote before `step` and local after it. -/
def Leaves (x : Crates) (ar : Arith) (desktop : Rect) (h : HostInput) (step : LoopStep) : Prop :=
  h.det.site = .remote ∧ (loopStep x ar desktop h step).det.site = .local

instance (x : Crates) (ar : Arith) (desktop : Rect) (h : HostInput) (step : LoopStep) :
    Decidable (Leaves x ar desktop h step) := inferInstanceAs (Decidable (_ ∧ _))

/-- Every step home leaves no button down on the peer, and after the exit no button and no key is down. -/
structure LeavesNothingDown (x : Crates) (ar : Arith) (desktop : Rect) (h : HostInput) (ticks : List HostTick) :
    Prop where
  leaving : ∀ front step back, stepsOf ticks = front ++ step :: back →
    Leaves x ar desktop (hostRun x ar desktop h front) step →
    NothingDown (hostRun x ar desktop h (front ++ [step])).buttonsSent
  stoppedButtons : NothingDown (hostLoop x ar desktop h ticks).exit.buttonsSent
  stoppedKeys : NothingDown (hostLoop x ar desktop h ticks).exit.keysSent

/-- Control crosses to the remote at `step` and stays there through `back`. -/
def RemoteSince (x : Crates) (ar : Arith) (desktop : Rect) (h : HostInput) (front : List LoopStep) (step : LoopStep)
    (back : List LoopStep) : Prop :=
  (hostRun x ar desktop h front).det.site = .local ∧
    ∀ k ≤ back.length, (hostRun x ar desktop h (front ++ step :: back.take k)).det.site = .remote

instance (x : Crates) (ar : Arith) (desktop : Rect) (h : HostInput) (front : List LoopStep) (step : LoopStep)
    (back : List LoopStep) : Decidable (RemoteSince x ar desktop h front step back) :=
  inferInstanceAs (Decidable (_ ∧ _))

/-- The modifier events captured before control crossed, and the key events captured on the remote since, but for the
press that completes the chord. -/
def keysSince (x : Crates) (ar : Arith) (desktop : Rect) (h : HostInput) (front : List LoopStep) (step : LoopStep)
    (back : List LoopStep) : List (Key × Bool) :=
  ((front.filterMap LoopStep.key?).filter fun e => isModifier e.1) ++
    (relayed x ar desktop (hostRun x ar desktop h (front ++ [step])) back).filterMap InputEvent.key?

/-- Before every step home, and when the loop stops, every button pressed while control was remote has also been
released while control was remote; and when the loop stops while control is remote, every modifier that was down when
control crossed last, and every key pressed on the remote since, has been released since. -/
structure ReleasedInTime (x : Crates) (ar : Arith) (desktop : Rect) (h : HostInput) (ticks : List HostTick) :
    Prop where
  leaving : ∀ front step back, stepsOf ticks = front ++ step :: back →
    Leaves x ar desktop (hostRun x ar desktop h front) step → NothingDown (remoteButtons x ar desktop h front)
  stoppedButtons : NothingDown (remoteButtons x ar desktop h (stepsOf ticks))
  stoppedKeys : ∀ front step back, stepsOf ticks = front ++ step :: back →
    RemoteSince x ar desktop h front step back → NothingDown (keysSince x ar desktop h front step back)

theorem forall_split_iff {α : Type*} {l : List α} {P : List α → α → List α → Prop} :
    (∀ front a back, l = front ++ a :: back → P front a back) ↔
      ∀ i (hi : i < l.length), P (l.take i) (l.get ⟨i, hi⟩) (l.drop (i + 1)) := by
  constructor
  · intro h i hi
    exact h _ _ _ (by simp)
  · rintro h front a back rfl
    have hlast := h front.length (by simp)
    simpa using hlast

instance (x : Crates) (ar : Arith) (desktop : Rect) (h : HostInput) (ticks : List HostTick) :
    Decidable (ReleasedInTime x ar desktop h ticks) :=
  decidable_of_iff
    ((∀ i (hi : i < (stepsOf ticks).length), Leaves x ar desktop (hostRun x ar desktop h ((stepsOf ticks).take i))
        ((stepsOf ticks).get ⟨i, hi⟩) → NothingDown (remoteButtons x ar desktop h ((stepsOf ticks).take i))) ∧
      NothingDown (remoteButtons x ar desktop h (stepsOf ticks)) ∧
      ∀ i (hi : i < (stepsOf ticks).length),
        RemoteSince x ar desktop h ((stepsOf ticks).take i) ((stepsOf ticks).get ⟨i, hi⟩) ((stepsOf ticks).drop (i + 1)) →
          NothingDown (keysSince x ar desktop h ((stepsOf ticks).take i) ((stepsOf ticks).get ⟨i, hi⟩)
            ((stepsOf ticks).drop (i + 1))))
    ⟨fun ⟨hleaving, hbuttons, hkeys⟩ => ⟨forall_split_iff.mpr hleaving, hbuttons, forall_split_iff.mpr hkeys⟩,
      fun h => ⟨forall_split_iff.mp h.leaving, h.stoppedButtons, forall_split_iff.mp h.stoppedKeys⟩⟩

theorem sent_exit (h : HostInput) : h.exit.sent = h.sent := by
  simp [HostInput.exit, HostInput.emit, HostInput.sent, HostInput.deeds, HostOut.deed, Deed.sent?]

section Since

variable {x : Crates} {ar : Arith} {desktop : Rect} {h : HostInput} {front back steps : List LoopStep} {step : LoopStep}

theorem exists_remoteSince (hstart : h.det.site = .local) (hremote : (hostRun x ar desktop h steps).det.site = .remote) :
    ∃ front step back, steps = front ++ step :: back ∧ RemoteSince x ar desktop h front step back := by
  induction steps using List.reverseRecOn with
  | nil => cases hstart.symm.trans hremote
  | append_singleton steps step ih =>
    cases hsite : (hostRun x ar desktop h steps).det.site with
    | «local» =>
      refine ⟨steps, step, [], rfl, hsite, fun k _ => ?_⟩
      rw [List.take_nil]
      exact hremote
    | remote =>
      obtain ⟨front, first, back, rfl, hlocal, hstays⟩ := ih hsite
      refine ⟨front, first, back ++ [step], by simp, hlocal, fun k hk => ?_⟩
      rcases Nat.lt_or_ge back.length k with hlast | hbefore
      · rw [List.take_of_length_le (by simp; omega)]
        simpa using hremote
      · rw [List.take_append_of_le_length hbefore]
        exact hstays k hbefore

theorem keysSent_run (hsends : x.Sends)
    (hstays : ∀ k ≤ back.length, (hostRun x ar desktop h (back.take k)).det.site = .remote) :
    (hostRun x ar desktop h back).keysSent =
      h.keysSent ++ (relayed x ar desktop h back).filterMap InputEvent.key? := by
  induction back generalizing h with
  | nil => exact (List.append_nil _).symm
  | cons step back ih =>
    have hrest : ∀ k ≤ back.length,
        (hostRun x ar desktop (loopStep x ar desktop h step) (back.take k)).det.site = .remote :=
      fun k hk => hstays (k + 1) (Nat.succ_le_succ hk)
    have hfirst := keysSent_stays (h := h) hsends (hstays 0 (Nat.zero_le _)) (hrest 0 (Nat.zero_le _))
    rw [hostRun, List.foldl_cons, ← hostRun, ih hrest, hfirst, relayed, List.filterMap_append, List.append_assoc]

/-- The keys down on the peer since the crossing: at it the modifiers that are down are pressed there. -/
theorem down_keysSent_iff (hsends : x.Sends) {edge : ScreenEdge} {hysteresis : Int} {rt : RealtimeCrypto}
    (hsince : RemoteSince x ar desktop (.start edge hysteresis rt) front step back) (key : Key) :
    Down (hostRun x ar desktop (.start edge hysteresis rt) (front ++ step :: back)).keysSent key ↔
      Down (keysSince x ar desktop (.start edge hysteresis rt) front step back) key := by
  obtain ⟨hlocal, hstays⟩ := hsince
  have hfront := hostRun_good hsends ar desktop edge hysteresis rt front
  have hafter := hostRun_good hsends ar desktop edge hysteresis rt (front ++ [step])
  obtain ⟨hview, -⟩ := view_of_crosses hsends ar desktop hlocal
    (by rw [← hostRun_snoc]; exact hstays 0 (Nat.zero_le _))
  -- after the crossing exactly the modifiers held locally are held for the peer
  have hcrossed : ∀ key, Down (hostRun x ar desktop (.start edge hysteresis rt) (front ++ [step])).keysSent key ↔
      Down ((front.filterMap LoopStep.key?).filter fun e => isModifier e.1) key := by
    intro key
    have hheld := (KeyView.seedAll_spec (hostRun x ar desktop (.start edge hysteresis rt) front).heldModsLocal
      { (hostRun x ar desktop (.start edge hysteresis rt) front).view with site := .remote } hfront.tracks).2.2.2 key
    have hempty : (hostRun x ar desktop (.start edge hysteresis rt) front).heldRemote = [] := hfront.atHome hlocal
    rw [down_filter, ← hfront.mods key]
    refine (hafter.tracks.mem_iff key).symm.trans ?_
    rw [hostRun_snoc, hview]
    exact hheld.trans (by simp [HostInput.view, hempty])
  have hsplit : hostRun x ar desktop (.start edge hysteresis rt) (front ++ step :: back) =
      hostRun x ar desktop (hostRun x ar desktop (.start edge hysteresis rt) (front ++ [step])) back := by
    rw [← hostRun_append, List.append_assoc, List.singleton_append]
  rw [hsplit, keysSent_run hsends fun k hk => ?_]
  · exact down_append_congr hcrossed _ key
  · rw [← hostRun_append, List.append_assoc, List.singleton_append]
    exact hstays k hk

end Since

/-- For any run of the loop, and stop at any iteration. -/
theorem leaves_nothing_down_iff {x : Crates} (hsends : x.Sends) (ar : Arith) (desktop : Rect) (edge : ScreenEdge)
    (hysteresis : Int) (rt : RealtimeCrypto) (ticks : List HostTick) :
    LeavesNothingDown x ar desktop (.start edge hysteresis rt) ticks ↔
      ReleasedInTime x ar desktop (.start edge hysteresis rt) ticks := by
  have hbuttons : (hostLoop x ar desktop (.start edge hysteresis rt) ticks).exit.buttonsSent =
      remoteButtons x ar desktop (.start edge hysteresis rt) (stepsOf ticks) := by
    rw [buttonsSent, sent_exit, hostLoop_eq]
    exact buttonsSent_eq hsends edge hysteresis rt _
  have hexit : (hostLoop x ar desktop (.start edge hysteresis rt) ticks).exit.keysSent =
      (hostRun x ar desktop (.start edge hysteresis rt) (stepsOf ticks)).keysSent := by
    rw [keysSent_eq, sent_exit, ← keysSent_eq, hostLoop_eq]
  have hleave : ∀ front step, Leaves x ar desktop (hostRun x ar desktop (.start edge hysteresis rt) front) step →
      (hostRun x ar desktop (.start edge hysteresis rt) (front ++ [step])).buttonsSent =
        remoteButtons x ar desktop (.start edge hysteresis rt) front := by
    rintro front step ⟨-, hlocal⟩
    rw [hostRun_snoc, buttonsSent_step hsends, relays_eq_none_of_home hsends hlocal,
      buttonsSent_eq hsends edge hysteresis rt]
    exact List.append_nil _
  constructor
  · rintro ⟨hleaving, hstop, hstopKeys⟩
    refine ⟨fun front step back hsplit hleaves => ?_, hbuttons ▸ hstop, fun front step back hsplit hsince key => ?_⟩
    · rw [← hleave front step hleaves]
      exact hleaving front step back hsplit hleaves
    · rw [← down_keysSent_iff hsends hsince key, ← hsplit, ← hexit]
      exact hstopKeys key
  · rintro ⟨hleaving, hstop, hstopKeys⟩
    refine ⟨fun front step back hsplit hleaves => ?_, hbuttons ▸ hstop, ?_⟩
    · rw [hleave front step hleaves]
      exact hleaving front step back hsplit hleaves
    · rw [hexit]
      intro key
      cases hsite : (hostRun x ar desktop (.start edge hysteresis rt) (stepsOf ticks)).det.site with
      | «local» =>
        -- at home nothing is held for the peer
        have hgood := hostRun_good hsends ar desktop edge hysteresis rt (stepsOf ticks)
        have hempty : (hostRun x ar desktop (.start edge hysteresis rt) (stepsOf ticks)).view.held = [] :=
          hgood.atHome hsite
        rintro hdown
        have hmem := (hgood.tracks.mem_iff key).mpr hdown
        rw [hempty] at hmem
        cases hmem
      | remote =>
        obtain ⟨front, step, back, hsplit, hsince⟩ := exists_remoteSince rfl hsite
        rw [hsplit, down_keysSent_iff hsends hsince key]
        exact hstopKeys front step back hsplit hsince key

/-- What postcard makes of some input events. -/
def dragEncodings : List (InputEvent × Bytes) :=
  [(.mouseButton .left true, [2, 0, 1]), (.mouseButton .left false, [2, 0, 0]), (.mouseWheel 0 120, [3, 0, 240, 1]),
    (.key .a true, [4, 0, 1]), (.key .a false, [4, 0, 0]), (.key .shiftLeft true, [4, 50, 1]),
    (.key .shiftLeft false, [4, 50, 0]), (.key .controlLeft true, [4, 48, 1]), (.key .altLeft true, [4, 52, 1])]

/-- ChaCha20-Poly1305 under the key `7, 7, …` and the associated data of epoch 1, on some sequence numbers and messages. -/
def dragPackets : List (BitVec 64 × Bytes × Bytes) :=
  [(0, [2, 0, 1], [108, 211, 82, 142, 203, 120, 240, 213, 150, 199, 86, 83, 210, 1, 166, 103, 179, 184, 66]),
    (0, [4, 50, 1], [106, 225, 82, 250, 171, 80, 204, 226, 128, 82, 156, 225, 157, 162, 98, 30, 248, 139, 84]),
    (1, [2, 0, 0], [11, 146, 246, 70, 109, 42, 252, 12, 102, 198, 181, 71, 233, 232, 129, 239, 45, 166, 246]),
    (1, [4, 50, 0], [13, 160, 246, 11, 166, 33, 13, 170, 23, 237, 186, 125, 39, 241, 168, 206, 143, 116, 223]),
    (2, [3, 0, 240, 1], [52, 1, 255, 94, 73, 105, 17, 20, 140, 136, 13, 186, 102, 191, 239, 159, 115, 220, 28, 187]),
    (2, [4, 0, 1], [51, 1, 14, 9, 211, 162, 108, 249, 72, 24, 105, 159, 7, 238, 19, 165, 208, 100, 75]),
    (2, [4, 50, 0], [51, 51, 15, 2, 42, 110, 124, 69, 47, 89, 161, 36, 87, 245, 147, 47, 255, 85, 173]),
    (3, [4, 0, 0], [203, 103, 253, 228, 145, 9, 98, 21, 148, 155, 32, 96, 199, 70, 80, 13, 162, 118, 211]),
    (3, [4, 48, 1], [203, 87, 252, 6, 142, 93, 47, 57, 133, 0, 57, 41, 18, 38, 236, 135, 121, 50, 143]),
    (3, [4, 50, 0], [203, 85, 253, 13, 123, 9, 57, 176, 201, 41, 51, 113, 202, 241, 244, 124, 61, 16, 237]),
    (4, [4, 52, 1], [150, 252, 61, 42, 83, 93, 86, 153, 154, 109, 15, 247, 239, 57, 176, 31, 194, 189, 64])]

/-- The cipher on `dragPackets`; empty elsewhere. -/
def dragAead : Aead where
  encrypt key nonce msg aad :=
    if key = Vector.replicate 32 7 ∧ aad = beBytes 1 then
      some (((dragPackets.find? fun p => nonce = RealtimeCrypto.nonce SALT_INITIATOR p.1 ∧ msg = p.2.1).map
        (·.2.2)).getD [])
    else some []
  decrypt _ _ _ _ := none
  error := "aead::Error"

def dragCrates : Crates where
  sha256 _ := Vector.replicate 32 0
  aead := dragAead
  encodeInput ev := some (((dragEncodings.find? fun p => p.1 = ev).map Prod.snd).getD [])
  decodeInput _ := none
  encodeChunk _ := none
  debugMsg _ := ""

theorem dragCrates_sends : dragCrates.Sends := by
  intro ev
  refine ⟨_, rfl, fun key nonce aad => ?_⟩
  simp only [dragCrates, dragAead]
  split_ifs <;> rfl

def dragStart : HostInput := .start .right 25 (RealtimeCrypto.new (Vector.replicate 32 7) 1 true)

/-- The cursor crosses the right edge, the left button goes down, and the user asks to snap home. -/
def dragTicks : List HostTick :=
  [⟨.right, false, some (.move 5 0 1919 540), .right⟩,
    ⟨.right, false, some (.input (.mouseButton .left true)), .right⟩,
    ⟨.right, true, none, .right⟩]

/-- The left button is pressed and released on the remote, the user asks to snap home and crosses again, and the key A is
pressed and released there. -/
def clickTicks : List HostTick :=
  [⟨.right, false, some (.move 5 0 1919 540), .right⟩,
    ⟨.right, false, some (.input (.mouseButton .left true)), .right⟩,
    ⟨.right, false, some (.input (.mouseButton .left false)), .right⟩,
    ⟨.right, true, some (.move 5 0 1919 540), .right⟩,
    ⟨.right, false, some (.input (.key .a true)), .right⟩,
    ⟨.right, false, some (.input (.key .a false)), .right⟩]

theorem leaves_nothing_down_iff_click :
    (hostLoop dragCrates .exact ⟨0, 0, 1920, 1080⟩ dragStart clickTicks).sent =
        [.mouseButton .left true, .mouseButton .left false, .key .a true, .key .a false] ∧
      (hostLoop dragCrates .exact ⟨0, 0, 1920, 1080⟩ dragStart clickTicks).det.site = .remote ∧
      LeavesNothingDown dragCrates .exact ⟨0, 0, 1920, 1080⟩ dragStart clickTicks :=
  ⟨by decide +kernel, by decide +kernel, (leaves_nothing_down_iff dragCrates_sends .exact ⟨0, 0, 1920, 1080⟩ .right 25
    (RealtimeCrypto.new (Vector.replicate 32 7) 1 true) clickTicks).mpr (by decide +kernel)⟩

/-- Snapping home in the middle of a drag leaves the button down on the peer. -/
theorem drag_left_down : ¬ LeavesNothingDown dragCrates .exact ⟨0, 0, 1920, 1080⟩ dragStart dragTicks := by
  intro hnothing
  have hhome := hnothing.leaving (stepsOf (dragTicks.take 2)) (.head .right true) [.poll none .right] rfl
    ⟨by decide +kernel, by decide +kernel⟩ .left
  revert hhome
  decide +kernel

end ScreenLink
