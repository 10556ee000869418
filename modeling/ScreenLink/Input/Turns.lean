import ScreenLink.Input.Loop

/-!
# What one step of the loop does

`Does h ds h'`: `h'` is `h` after the deeds `ds`, up to the state of the cipher. The head of an iteration takes one of
two turns (`hostHead_turn`) and its poll one of ten (`hostPoll_turn`); a turn says which branch was taken, which
variables change, and what is done in which order. What follows about whole runs is read off the turns.
-/

namespace ScreenLink

/-- Serializing and sealing an input event do not fail. -/
def Crates.Sends (x : Crates) : Prop :=
  ∀ ev, ∃ payload, x.encodeInput ev = some payload ∧
    ∀ key nonce aad, (x.aead.encrypt key nonce payload aad).isSome

/-- What the loop does to the outside, without the bytes of the packets. -/
inductive Deed
  | sent (ev : InputEvent)
  | ctrl (msg : ControlMsg)
  | event (event : NetEvent)
  | suppress (on : Bool)
  | park (x y : Int)
  deriving DecidableEq

def HostOut.deed : HostOut → Deed
  | .udp ev _ => .sent ev
  | .ctrl msg => .ctrl msg
  | .event e => .event e
  | .suppress on => .suppress on
  | .park x y => .park x y

def HostInput.deeds (h : HostInput) : List Deed := h.out.map HostOut.deed

/-- The deeds of sending `evs`: an event that cannot be serialized or sealed is skipped. -/
structure Crates.SentBy (x : Crates) (evs : List InputEvent) (ds : List Deed) : Prop where
  sublist : ds.Sublist (evs.map .sent)
  all : x.Sends → ds = evs.map .sent

/-- `MOD_SYNC_REPEAT` copies of an event for each key. -/
def keyEvents (pressed : Bool) (keys : List Key) : List InputEvent :=
  keys.flatMap fun key => List.replicate MOD_SYNC_REPEAT (.key key pressed)

/-- The keys among `keys` to be added to `held`. -/
def newlyHeld (held : List Key) : List Key → List Key
  | [] => []
  | key :: keys => if key ∈ held then newlyHeld held keys else key :: newlyHeld (held ++ [key]) keys

namespace HostInput

/-- `h'` is `h` after the deeds `ds`, up to the state of the cipher. -/
def Does (h : HostInput) (ds : List Deed) (h' : HostInput) : Prop :=
  ∃ rt sealed out, h' = { h with rt := rt, sealed := sealed, out := out } ∧ h'.deeds = h.deeds ++ ds

variable {x : Crates} {h h' h'' : HostInput} {ds es : List Deed}

namespace Does

theorem det (hdoes : Does h ds h') : h'.det = h.det := by
  obtain ⟨rt, sealed, out, rfl, -⟩ := hdoes
  rfl

theorem heldRemote (hdoes : Does h ds h') : h'.heldRemote = h.heldRemote := by
  obtain ⟨rt, sealed, out, rfl, -⟩ := hdoes
  rfl

theorem vr (hdoes : Does h ds h') : h'.vrx = h.vrx ∧ h'.vry = h.vry := by
  obtain ⟨rt, sealed, out, rfl, -⟩ := hdoes
  exact ⟨rfl, rfl⟩

theorem snapHome (hdoes : Does h ds h') : h'.snapHome = h.snapHome := by
  obtain ⟨rt, sealed, out, rfl, -⟩ := hdoes
  rfl

theorem hotkey (hdoes : Does h ds h') : h'.hotkey = h.hotkey := by
  obtain ⟨rt, sealed, out, rfl, -⟩ := hdoes
  rfl

theorem deeds (hdoes : Does h ds h') : h'.deeds = h.deeds ++ ds := by
  obtain ⟨-, -, -, -, hdeeds⟩ := hdoes
  exact hdeeds

theorem refl (h : HostInput) : Does h [] h := ⟨h.rt, h.sealed, h.out, rfl, by simp⟩

theorem trans (hdoes : Does h ds h') (hthen : Does h' es h'') : Does h (ds ++ es) h'' := by
  obtain ⟨rt, sealed, out, rfl, hdeeds⟩ := hdoes
  obtain ⟨rt', sealed', out', rfl, hdeeds'⟩ := hthen
  exact ⟨rt', sealed', out', rfl, by rw [hdeeds', hdeeds, List.append_assoc]⟩

theorem emit (hdoes : Does h ds h') (o : HostOut) : Does h (ds ++ [o.deed]) (h'.emit o) := by
  refine hdoes.trans ⟨h'.rt, h'.sealed, h'.out ++ [o], rfl, ?_⟩
  simp [HostInput.deeds, HostInput.emit]

end Does

end HostInput

namespace Crates.SentBy

variable {x : Crates} {evs fvs : List InputEvent} {ds es : List Deed}

theorem nil : x.SentBy [] [] := ⟨List.Sublist.refl _, fun _ => rfl⟩

theorem append (hds : x.SentBy evs ds) (hes : x.SentBy fvs es) : x.SentBy (evs ++ fvs) (ds ++ es) where
  sublist := by
    rw [List.map_append]
    exact hds.sublist.append hes.sublist
  all hsends := by rw [hds.all hsends, hes.all hsends, List.map_append]

theorem mem (hds : x.SentBy evs ds) {d : Deed} (hd : d ∈ ds) : ∃ ev ∈ evs, d = .sent ev := by
  obtain ⟨ev, hev, rfl⟩ := List.mem_map.mp (hds.sublist.subset hd)
  exact ⟨ev, hev, rfl⟩

theorem foldl_eq {β : Type*} {hear : β → Deed → β} (hquiet : ∀ b ev, hear b (.sent ev) = b) (hds : x.SentBy evs ds)
    (b : β) : ds.foldl hear b = b := by
  have hsent : ∀ d ∈ ds, ∀ b, hear b d = b := by
    intro d hd b
    obtain ⟨ev, -, rfl⟩ := hds.mem hd
    exact hquiet b ev
  clear hds
  induction ds generalizing b with
  | nil => rfl
  | cons d ds ih =>
    rw [List.foldl_cons, hsent d (by simp)]
    exact ih b fun e he => hsent e (by simp [he])

end Crates.SentBy

/-! ### Sending -/

namespace HostInput

variable {x : Crates} {h h' : HostInput} {ds : List Deed}

theorem does_sendRt (x : Crates) (h : HostInput) (ev : InputEvent) :
    ∃ ds, x.SentBy [ev] ds ∧ Does h ds (h.sendRt x ev) := by
  unfold sendRt
  cases hpayload : x.encodeInput ev with
  | none =>
    refine ⟨[], ⟨List.nil_sublist _, fun hsends => ?_⟩, .refl h⟩
    obtain ⟨payload, hsome, -⟩ := hsends ev
    rw [hpayload] at hsome
    cases hsome
  | some payload =>
    dsimp only
    rcases hseal : h.rt.seal x payload with ⟨rt, err | packet⟩
    · refine ⟨[], ⟨List.nil_sublist _, fun hsends => ?_⟩, rt, h.sealed ++ [h.rt.sendSeq], h.out, rfl, by simp [deeds]⟩
      obtain ⟨payload', hsome, henc⟩ := hsends ev
      obtain rfl : payload = payload' := Option.some.inj (hpayload.symm.trans hsome)
      obtain ⟨ct, hct⟩ := Option.isSome_iff_exists.mp
        (henc h.rt.cipher (RealtimeCrypto.nonce h.rt.sendSalt h.rt.sendSeq) h.rt.aad)
      rw [RealtimeCrypto.seal, hct] at hseal
      cases hseal
    · exact ⟨[.sent ev], ⟨List.Sublist.refl _, fun _ => rfl⟩, rt, h.sealed ++ [h.rt.sendSeq],
        h.out ++ [.udp ev packet], rfl, by simp [deeds, emit, HostOut.deed]⟩

theorem does_sendAll (x : Crates) (evs : List InputEvent) (h : HostInput) :
    ∃ ds, x.SentBy evs ds ∧ Does h ds (evs.foldl (sendRt x) h) := by
  induction evs generalizing h with
  | nil => exact ⟨[], .nil, .refl h⟩
  | cons ev evs ih =>
    obtain ⟨ds, hds, hdoes⟩ := does_sendRt x h ev
    obtain ⟨es, hes, hthen⟩ := ih (h.sendRt x ev)
    exact ⟨ds ++ es, hds.append hes, hdoes.trans hthen⟩

theorem does_releaseKeys (x : Crates) (keys : List Key) (h : HostInput) :
    ∃ ds, x.SentBy (keyEvents false keys) ds ∧
      Does h ds (keys.foldl (fun h key => h.sendKeyRepeat x key false) h) := by
  induction keys generalizing h with
  | nil => exact ⟨[], .nil, .refl h⟩
  | cons key keys ih =>
    obtain ⟨ds, hds, hdoes⟩ := does_sendAll x (List.replicate MOD_SYNC_REPEAT (.key key false)) h
    obtain ⟨es, hes, hthen⟩ := ih (h.sendKeyRepeat x key false)
    exact ⟨ds ++ es, hds.append hes, hdoes.trans hthen⟩

theorem does_releaseHeld (x : Crates) (h : HostInput) :
    ∃ ds, x.SentBy (keyEvents false h.heldRemote) ds ∧ Does { h with heldRemote := [] } ds (h.releaseHeld x) :=
  does_releaseKeys x h.heldRemote { h with heldRemote := [] }

theorem does_goHome (x : Crates) (h : HostInput) (det : EdgeDetector) (last : HostOut) :
    ∃ ds, x.SentBy (keyEvents false h.heldRemote) ds ∧
      Does { h with det := det, heldRemote := [] } ([.suppress false] ++ ds ++ [.ctrl .edgeLeave, last.deed])
        (((({ h with det := det }.emit (.suppress false)).releaseHeld x).emit (.ctrl .edgeLeave)).emit last) := by
  let h₁ : HostInput := { h with det := det }.emit (.suppress false)
  obtain ⟨ds, hds, hreleased⟩ := does_releaseHeld x h₁
  have hemit : Does { h with det := det, heldRemote := [] } [.suppress false] { h₁ with heldRemote := [] } :=
    (Does.refl _).emit (.suppress false)
  refine ⟨ds, hds, ?_⟩
  have hdoes := ((hemit.trans hreleased).emit (.ctrl .edgeLeave)).emit last
  rw [List.append_assoc _ _ [last.deed]] at hdoes
  exact hdoes

theorem does_seedAll (x : Crates) (keys : List Key) (h : HostInput) :
    ∃ ds, x.SentBy (keyEvents true (newlyHeld h.heldRemote keys)) ds ∧
      Does { h with heldRemote := h.heldRemote ++ newlyHeld h.heldRemote keys } ds (keys.foldl (seedOne x) h) := by
  induction keys generalizing h with
  | nil =>
    refine ⟨[], .nil, h.rt, h.sealed, h.out, ?_, by simp [deeds]⟩
    simp [newlyHeld]
  | cons key keys ih =>
    obtain ⟨es, hes, hthen⟩ := ih (h.seedOne x key)
    rw [List.foldl_cons]
    by_cases hmem : key ∈ h.heldRemote
    · have hseed : h.seedOne x key = h := by rw [seedOne, if_pos hmem]
      rw [hseed] at hes hthen ⊢
      rw [newlyHeld, if_pos hmem]
      exact ⟨es, hes, hthen⟩
    · obtain ⟨ds, hds, rt, sealed, out, heq, hdeeds⟩ :=
        does_sendAll x (List.replicate MOD_SYNC_REPEAT (.key key true)) h
      have hseed : h.seedOne x key =
          { h with heldRemote := h.heldRemote ++ [key], rt := rt, sealed := sealed, out := out } := by
        rw [seedOne, if_neg hmem, sendKeyRepeat, heq]
      have hout : out.map HostOut.deed = h.deeds ++ ds := by
        rw [heq] at hdeeds
        exact hdeeds
      obtain ⟨rt', sealed', out', heq', hdeeds'⟩ := hthen
      rw [hseed] at hes heq' hdeeds' ⊢
      rw [newlyHeld, if_neg hmem]
      refine ⟨ds ++ es, hds.append hes, rt', sealed', out', ?_, ?_⟩
      · rw [heq']
        simp
      · rw [hdeeds']
        show out.map HostOut.deed ++ es = h.deeds ++ (ds ++ es)
        rw [hout, List.append_assoc]

end HostInput

/-! ### The head of an iteration -/

open HostInput

/-- A head either leaves control where it is, or serves a request to snap home while control is remote. -/
inductive HeadTurn (x : Crates) (h : HostInput) (edge : ScreenEdge) (snapUi : Bool) : HostInput → Prop
  | keeps (hkeep : h.det.site = .local ∨ (h.snapHome || snapUi) = false) :
      HeadTurn x h edge snapUi { h with det := h.det.setEdge edge, snapHome := false }
  | snaps {ds : List Deed} {h' : HostInput} (hsite : h.det.site = .remote) (hasked : (h.snapHome || snapUi) = true)
      (hsent : x.SentBy (keyEvents false h.heldRemote) ds)
      (hdoes : Does { h with det := (h.det.setEdge edge).forceHome.1, heldRemote := [], snapHome := false }
        ([.suppress false] ++ ds ++ [.ctrl .edgeLeave, .event (.status "Control snapped home")]) h') :
      HeadTurn x h edge snapUi h'

theorem hostHead_turn (x : Crates) (h : HostInput) (edge : ScreenEdge) (snapUi : Bool) :
    HeadTurn x h edge snapUi (hostHead x h edge snapUi) := by
  unfold hostHead
  dsimp only
  by_cases hasked : (h.snapHome || snapUi) = true
  · rw [if_pos hasked]
    rcases EdgeDetector.forceHome_cases (h.det.setEdge edge) with ⟨hsite, heq⟩ | ⟨hsite, heq⟩
    · obtain ⟨ds, hds, hdoes⟩ := does_goHome x { h with det := h.det.setEdge edge, snapHome := false }
        (h.det.setEdge edge).forceHome.1 (.event (.status "Control snapped home"))
      refine .snaps hsite hasked hds ?_
      rw [heq] at hdoes ⊢
      simp only [snap, heq]
      exact hdoes
    · have hsnap : snap x { h with det := h.det.setEdge edge } =
          { h with det := h.det.setEdge edge, snapHome := false } := by
        simp only [snap, heq]
      rw [hsnap]
      exact .keeps (Or.inl hsite)
  · rw [if_neg hasked]
    rw [Bool.not_eq_true] at hasked
    have hsnap : h.snapHome = false := (Bool.or_eq_false_iff.mp hasked).1
    have heq : ({ h with det := h.det.setEdge edge } : HostInput) =
        { h with det := h.det.setEdge edge, snapHome := false } := by
      rw [← hsnap]
    rw [heq]
    exact .keeps (Or.inr hasked)

/-! ### Its poll -/

/-- A poll takes one branch of the loop's `match`. -/
inductive PollTurn (x : Crates) (ar : Arith) (desktop : Rect) (h : HostInput) :
    Option CapturedEvent → ScreenEdge → HostInput → Prop
  | idle (edgeNow : ScreenEdge) : PollTurn x ar desktop h none edgeNow h
  | stays {dx dy absX absY : Int} {edgeNow : ScreenEdge} (hsite : h.det.site = .local)
      (hupdate : (h.det.updateLocal ar absX absY desktop).2 = none) :
      PollTurn x ar desktop h (some (.move dx dy absX absY)) edgeNow h
  | crosses {dx dy absX absY : Int} {edgeNow : ScreenEdge} {det : EdgeDetector} {entryNorm : F32} {ds : List Deed}
      {h' : HostInput} (hsite : h.det.site = .local)
      (hupdate : h.det.updateLocal ar absX absY desktop = (det, some (.toRemote entryNorm)))
      (hremote : det.site = .remote)
      (hsent : x.SentBy (keyEvents true (newlyHeld h.heldRemote h.heldModsLocal)) ds)
      (hdoes : Does
        { h with
          det := det
          vrx := (entryPoint edgeNow entryNorm).1
          vry := (entryPoint edgeNow entryNorm).2
          heldRemote := h.heldRemote ++ newlyHeld h.heldRemote h.heldModsLocal }
        ([.suppress true, .park absX absY,
            .ctrl (.edgeEnter (entryPoint edgeNow entryNorm).1 (entryPoint edgeNow entryNorm).2)] ++ ds ++
          [.event (.controlOnRemote true)]) h') :
      PollTurn x ar desktop h (some (.move dx dy absX absY)) edgeNow h'
  | moves {dx dy absX absY : Int} {edgeNow : ScreenEdge} {det : EdgeDetector} {ds : List Deed} {h' : HostInput}
      (hsite : h.det.site = .remote) (hremote : det.site = .remote)
      (hsent : x.SentBy
        [.mouseMoveAbs (h.moveVirtual ar desktop dx dy).vrx (h.moveVirtual ar desktop dx dy).vry] ds)
      (hdoes : Does { h.moveVirtual ar desktop dx dy with det := det } ds h') :
      PollTurn x ar desktop h (some (.move dx dy absX absY)) edgeNow h'
  | returns {dx dy absX absY : Int} {edgeNow : ScreenEdge} {det : EdgeDetector} {ds es : List Deed} {h' : HostInput}
      (hsite : h.det.site = .remote) (hlocal : det.site = .local)
      (hsent : x.SentBy
        [.mouseMoveAbs (h.moveVirtual ar desktop dx dy).vrx (h.moveVirtual ar desktop dx dy).vry] ds)
      (hreleased : x.SentBy (keyEvents false h.heldRemote) es)
      (hdoes : Does { h.moveVirtual ar desktop dx dy with det := det, heldRemote := [] }
        (ds ++ [.suppress false] ++ es ++ [.ctrl .edgeLeave, .event (.controlOnRemote false)]) h') :
      PollTurn x ar desktop h (some (.move dx dy absX absY)) edgeNow h'
  | chord {key : Key} {pressed : Bool} {edgeNow : ScreenEdge} (hchord : (h.hotkey.onKey key pressed).2 = true) :
      PollTurn x ar desktop h (some (.input (.key key pressed))) edgeNow { h with snapHome := true }
  | keyLocal {key : Key} {pressed : Bool} {edgeNow : ScreenEdge}
      (hchord : (h.hotkey.onKey key pressed).2 = false) (hsite : h.det.site = .local) :
      PollTurn x ar desktop h (some (.input (.key key pressed))) edgeNow
        { h.trackLocal key pressed with hotkey := (h.hotkey.onKey key pressed).1 }
  | keyRemote {key : Key} {pressed : Bool} {edgeNow : ScreenEdge} {ds : List Deed} {h' : HostInput}
      (hchord : (h.hotkey.onKey key pressed).2 = false) (hsite : h.det.site = .remote)
      (hsent : x.SentBy [.key key pressed] ds)
      (hdoes : Does
        { h.trackLocal key pressed with
          hotkey := (h.hotkey.onKey key pressed).1
          heldRemote :=
            if pressed then HeldKeys.press h.heldRemote key else HeldKeys.release h.heldRemote key } ds h') :
      PollTurn x ar desktop h (some (.input (.key key pressed))) edgeNow h'
  | otherLocal {ev : InputEvent} {edgeNow : ScreenEdge} (hev : ∀ key pressed, ev ≠ .key key pressed)
      (hsite : h.det.site = .local) : PollTurn x ar desktop h (some (.input ev)) edgeNow h
  | otherRemote {ev : InputEvent} {edgeNow : ScreenEdge} {ds : List Deed} {h' : HostInput}
      (hev : ∀ key pressed, ev ≠ .key key pressed) (hsite : h.det.site = .remote) (hsent : x.SentBy [ev] ds)
      (hdoes : Does h ds h') : PollTurn x ar desktop h (some (.input ev)) edgeNow h'

namespace HostInput

variable {x : Crates} {ar : Arith} {desktop : Rect} {h : HostInput}

theorem moveLocal_turn (x : Crates) (ar : Arith) (desktop : Rect) (dx dy absX absY : Int) (edgeNow : ScreenEdge)
    (hsite : h.det.site = .local) :
    PollTurn x ar desktop h (some (.move dx dy absX absY)) edgeNow
      (h.moveLocal x ar desktop absX absY edgeNow) := by
  unfold moveLocal
  rcases EdgeDetector.updateLocal_cases ar h.det absX absY desktop hsite with ⟨det, entryNorm, heq, hremote⟩ | heq
  · simp only [heq]
    let h₁ : HostInput :=
      { ({ h with det := det }.emit (.suppress true)).emit (.park absX absY) with
        vrx := (entryPoint edgeNow entryNorm).1, vry := (entryPoint edgeNow entryNorm).2 }.emit
        (.ctrl (.edgeEnter (entryPoint edgeNow entryNorm).1 (entryPoint edgeNow entryNorm).2))
    obtain ⟨ds, hds, hseeded⟩ := does_seedAll x h.heldModsLocal h₁
    refine .crosses hsite heq hremote hds ?_
    have hemit := (((Does.refl
      { h with
        det := det
        vrx := (entryPoint edgeNow entryNorm).1
        vry := (entryPoint edgeNow entryNorm).2
        heldRemote := h.heldRemote ++ newlyHeld h.heldRemote h.heldModsLocal }).emit (.suppress true)).emit
        (.park absX absY)).emit
        (.ctrl (.edgeEnter (entryPoint edgeNow entryNorm).1 (entryPoint edgeNow entryNorm).2))
    exact (hemit.trans hseeded).emit (.event (.controlOnRemote true))
  · simp only [heq]
    exact .stays hsite (by rw [heq])

theorem moveRemote_turn (x : Crates) (ar : Arith) (desktop : Rect) (dx dy absX absY : Int) (edgeNow : ScreenEdge)
    (hsite : h.det.site = .remote) :
    PollTurn x ar desktop h (some (.move dx dy absX absY)) edgeNow
      (h.moveRemote x ar desktop dx dy edgeNow) := by
  unfold moveRemote pressReturn
  dsimp only
  obtain ⟨ds, hds, hsent⟩ := does_sendRt x (h.moveVirtual ar desktop dx dy)
    (.mouseMoveAbs (h.moveVirtual ar desktop dx dy).vrx (h.moveVirtual ar desktop dx dy).vry)
  generalize sendRt x (h.moveVirtual ar desktop dx dy) _ = h₁ at hsent ⊢
  have hsite₁ : h₁.det.site = .remote := by
    rw [hsent.det]
    exact hsite
  rcases EdgeDetector.updateRemote_cases ar h₁.det dx dy (atReturnEdge ar edgeNow h₁.vrx h₁.vry) hsite₁ with
    ⟨det, heq, hlocal⟩ | ⟨det, heq, hremote⟩
  · simp only [heq]
    obtain ⟨es, hes, hhome⟩ := does_goHome x h₁ det (.event (.controlOnRemote false))
    rw [hsent.heldRemote] at hes
    refine .returns hsite hlocal hds hes ?_
    have hmoved : Does { h.moveVirtual ar desktop dx dy with det := det, heldRemote := [] } ds
        { h₁ with det := det, heldRemote := [] } := by
      obtain ⟨rt, sealed, out, rfl, hdeeds⟩ := hsent
      exact ⟨rt, sealed, out, rfl, hdeeds⟩
    have hdoes := hmoved.trans hhome
    rw [← List.append_assoc, ← List.append_assoc] at hdoes
    exact hdoes
  · simp only [heq]
    refine .moves hsite hremote hds ?_
    obtain ⟨rt, sealed, out, rfl, hdeeds⟩ := hsent
    exact ⟨rt, sealed, out, rfl, hdeeds⟩

theorem onKey_chord (d : HotkeyDetector) (key : Key) (pressed : Bool) (h : (d.onKey key pressed).2 = true) :
    isModifier key = false := by
  cases key <;> simp_all [HotkeyDetector.onKey, isModifier]

theorem onKey_chord_hotkey (d : HotkeyDetector) (key : Key) (pressed : Bool) (hchord : (d.onKey key pressed).2 = true) :
    (d.onKey key pressed).1 = d := by
  cases key <;> simp_all [HotkeyDetector.onKey]

theorem exists_trackLocal (h : HostInput) (key : Key) (pressed : Bool) :
    ∃ mods, h.trackLocal key pressed = { h with heldModsLocal := mods } := by
  unfold trackLocal
  by_cases hmod : isModifier key = true
  · rw [if_pos hmod]
    exact ⟨_, rfl⟩
  · rw [if_neg hmod]
    exact ⟨h.heldModsLocal, rfl⟩

@[simp] theorem det_trackLocal (h : HostInput) (key : Key) (pressed : Bool) :
    (h.trackLocal key pressed).det = h.det := by
  obtain ⟨mods, heq⟩ := h.exists_trackLocal key pressed
  rw [heq]

@[simp] theorem out_trackLocal (h : HostInput) (key : Key) (pressed : Bool) :
    (h.trackLocal key pressed).out = h.out := by
  obtain ⟨mods, heq⟩ := h.exists_trackLocal key pressed
  rw [heq]

@[simp] theorem hotkey_trackLocal (h : HostInput) (key : Key) (pressed : Bool) :
    (h.trackLocal key pressed).hotkey = h.hotkey := by
  obtain ⟨mods, heq⟩ := h.exists_trackLocal key pressed
  rw [heq]

@[simp] theorem heldRemote_trackLocal (h : HostInput) (key : Key) (pressed : Bool) :
    (h.trackLocal key pressed).heldRemote = h.heldRemote := by
  obtain ⟨mods, heq⟩ := h.exists_trackLocal key pressed
  rw [heq]

@[simp] theorem deeds_trackLocal (h : HostInput) (key : Key) (pressed : Bool) :
    (h.trackLocal key pressed).deeds = h.deeds := by
  rw [deeds, out_trackLocal, deeds]

theorem inputKey_turn (x : Crates) (ar : Arith) (desktop : Rect) (h : HostInput) (key : Key) (pressed : Bool)
    (edgeNow : ScreenEdge) :
    PollTurn x ar desktop h (some (.input (.key key pressed))) edgeNow (h.inputKey x key pressed) := by
  unfold inputKey
  dsimp only
  rw [hotkey_trackLocal]
  by_cases hchord : (h.hotkey.onKey key pressed).2 = true
  · rw [if_pos hchord, trackLocal, if_neg (by simp [onKey_chord _ _ _ hchord]), onKey_chord_hotkey _ _ _ hchord]
    exact .chord hchord
  · rw [if_neg hchord]
    rw [Bool.not_eq_true] at hchord
    cases hsite : h.det.site with
    | «local» =>
      rw [if_neg (by simp [hsite])]
      exact .keyLocal hchord hsite
    | remote =>
      rw [if_pos (by simp [hsite]), heldRemote_trackLocal]
      obtain ⟨ds, hds, hdoes⟩ := does_sendRt x
        { h.trackLocal key pressed with
          hotkey := (h.hotkey.onKey key pressed).1
          heldRemote :=
            if pressed then HeldKeys.press h.heldRemote key else HeldKeys.release h.heldRemote key }
        (.key key pressed)
      exact .keyRemote hchord hsite hds hdoes

theorem inputOther_turn (x : Crates) (ar : Arith) (desktop : Rect) (h : HostInput) {ev : InputEvent}
    (hev : ∀ key pressed, ev ≠ .key key pressed) (edgeNow : ScreenEdge) :
    PollTurn x ar desktop h (some (.input ev)) edgeNow (h.inputOther x ev) := by
  unfold inputOther
  by_cases hsite : h.det.site = .remote
  · rw [if_pos hsite]
    obtain ⟨ds, hds, hdoes⟩ := does_sendRt x h ev
    exact .otherRemote hev hsite hds hdoes
  · rw [if_neg hsite]
    have hlocal : h.det.site = .local := by
      cases heq : h.det.site with
      | «local» => rfl
      | remote => exact absurd heq hsite
    exact .otherLocal hev hlocal

end HostInput

theorem hostPoll_turn (x : Crates) (ar : Arith) (desktop : Rect) (h : HostInput) (captured : Option CapturedEvent)
    (edgeNow : ScreenEdge) : PollTurn x ar desktop h captured edgeNow (hostPoll x ar desktop h captured edgeNow) := by
  rcases captured with _ | (⟨dx, dy, absX, absY⟩ | ev)
  · exact .idle edgeNow
  · unfold hostPoll
    cases hsite : h.det.site with
    | «local» => exact moveLocal_turn x ar desktop dx dy absX absY edgeNow hsite
    | remote => exact moveRemote_turn x ar desktop dx dy absX absY edgeNow hsite
  · cases ev with
    | key key pressed => exact inputKey_turn x ar desktop h key pressed edgeNow
    | _ => exact inputOther_turn x ar desktop h (by simp) edgeNow

theorem hostPoll_chord (x : Crates) (ar : Arith) (desktop : Rect) {h : HostInput} {key : Key} {pressed : Bool}
    (hchord : (h.hotkey.onKey key pressed).2 = true) (edgeNow : ScreenEdge) :
    hostPoll x ar desktop h (some (.input (.key key pressed))) edgeNow = { h with snapHome := true } := by
  have hturn := hostPoll_turn x ar desktop h (some (.input (.key key pressed))) edgeNow
  generalize hostPoll x ar desktop h (some (.input (.key key pressed))) edgeNow = h' at hturn
  rcases hturn with _ | _ | _ | _ | _ | _ | ⟨hquiet, -⟩ | ⟨hquiet, -, -, -⟩ | ⟨hev, -⟩ | ⟨hev, -, -, -⟩
  · rfl
  · exact absurd (hchord.symm.trans hquiet) (by simp)
  · exact absurd (hchord.symm.trans hquiet) (by simp)
  · exact absurd rfl (hev key pressed)
  · exact absurd rfl (hev key pressed)

end ScreenLink
