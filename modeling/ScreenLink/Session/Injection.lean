import ScreenLink.Input.WinInject
import ScreenLink.Session.Relay

/-!
# The keys of the controlled device

From the keys that are captured on the controller to those that are down on the controlled device, as its OS sees them. When
every datagram of the input loop has been delivered: between two Windows devices exactly the codes of the keys that the loop
holds for the peer are down (`windows_keys_mirrored`); on Linux and macOS nothing is down that these do not stand for, so
nothing at all while control is local (`unix_nothing_stuck`).
-/

namespace ScreenLink

open HeldKeys Machine Channel HostInput

/-! ### The keys that the loop sends -/

theorem mem_keyLog {pressed : Bool} {keys : List Key} {e : Key × Bool} (h : e ∈ keyLog pressed keys) : e.1 ∈ keys := by
  obtain ⟨key, hkey, he⟩ := List.mem_flatMap.mp h
  rw [List.eq_of_mem_replicate he]
  exact hkey

theorem mem_newlyHeld {held keys : List Key} {key : Key} (h : key ∈ newlyHeld held keys) : key ∈ keys := by
  induction keys generalizing held with
  | nil => cases h
  | cons other keys ih =>
    unfold newlyHeld at h
    split_ifs at h
    · exact List.mem_cons_of_mem other (ih h)
    · rcases List.mem_cons.mp h with rfl | hrest
      · exact List.mem_cons_self
      · exact List.mem_cons_of_mem other (ih hrest)

namespace HostInput

variable {x : Crates} {h h' : HostInput} {ds : List Deed}

theorem Does.keysSent (hdoes : Does h ds h') : h'.keysSent = h.keysSent ++ ds.filterMap Deed.key? :=
  congrArg KeyView.log hdoes.view

theorem keysSent_hostHead (hsends : x.Sends) (edge : ScreenEdge) (snapUi : Bool) {e : Key × Bool}
    (he : e ∈ (hostHead x h edge snapUi).keysSent) : e ∈ h.keysSent ∨ e.1 ∈ h.heldRemote := by
  have hturn := hostHead_turn x h edge snapUi
  generalize hostHead x h edge snapUi = h' at he hturn
  rcases hturn with hkeep | ⟨hsite, hasked, hsent, hdoes⟩
  · exact Or.inl he
  · rw [hdoes.keysSent] at he
    rcases List.mem_append.mp he with hold | hnew
    · exact Or.inl hold
    · have hlog : e ∈ keyLog false h.heldRemote := by
        simpa [List.filterMap_cons, Deed.key?, keys_of_sentBy hsends hsent] using hnew
      exact Or.inr (mem_keyLog hlog)

theorem keysSent_hostPoll (hsends : x.Sends) (ar : Arith) (desktop : Rect) (event : Option CapturedEvent)
    (edgeNow : ScreenEdge) {e : Key × Bool} (he : e ∈ (hostPoll x ar desktop h event edgeNow).keysSent) :
    e ∈ h.keysSent ∨ e.1 ∈ h.heldRemote ∨ e.1 ∈ h.heldModsLocal ∨ (LoopStep.poll event edgeNow).key? = some e := by
  have hturn := hostPoll_turn x ar desktop h event edgeNow
  generalize hostPoll x ar desktop h event edgeNow = h' at he hturn
  rcases hturn with _ | ⟨hsite, hupdate⟩ | ⟨hsite, hupdate, hremote, hsent, hdoes⟩ |
    ⟨hsite, hremote, hsent, hdoes⟩ | ⟨hsite, hlocal, hsent, hreleased, hdoes⟩ | hchord | ⟨hchord, hsite⟩ |
    ⟨hchord, hsite, hsent, hdoes⟩ | ⟨hev, hsite⟩ | ⟨hev, hsite, hsent, hdoes⟩
  · exact Or.inl he
  · exact Or.inl he
  · -- the modifiers held locally are pressed
    rw [hdoes.keysSent] at he
    rcases List.mem_append.mp he with hold | hnew
    · exact Or.inl hold
    · have hlog : e ∈ keyLog true (newlyHeld h.heldRemote h.heldModsLocal) := by
        simpa [List.filterMap_cons, Deed.key?, keys_of_sentBy hsends hsent] using hnew
      exact Or.inr (Or.inr (Or.inl (mem_newlyHeld (mem_keyLog hlog))))
  · rw [hdoes.keysSent, no_keys_of_sentBy (by simp) hsent, List.append_nil] at he
    exact Or.inl he
  · -- everything held is released
    rw [hdoes.keysSent] at he
    rcases List.mem_append.mp he with hold | hnew
    · exact Or.inl hold
    · have hlog : e ∈ keyLog false h.heldRemote := by
        simpa [List.filterMap_cons, Deed.key?, no_keys_of_sentBy (by simp) hsent, keys_of_sentBy hsends hreleased]
          using hnew
      exact Or.inr (Or.inl (mem_keyLog hlog))
  · exact Or.inl he
  · refine Or.inl ?_
    unfold HostInput.keysSent trackLocal at he
    split_ifs at he <;> exact he
  · -- the key is relayed
    rw [hdoes.keysSent, hsent.all hsends] at he
    rcases List.mem_append.mp he with hold | hnew
    · refine Or.inl ?_
      unfold HostInput.keysSent trackLocal at hold
      split_ifs at hold <;> exact hold
    · exact Or.inr (Or.inr (Or.inr (congrArg some (List.mem_singleton.mp hnew)).symm))
  · exact Or.inl he
  · rw [hdoes.keysSent, no_keys_of_sentBy hev hsent, List.append_nil] at he
    exact Or.inl he

end HostInput

theorem keysSent_captured {x : Crates} (hsends : x.Sends) (ar : Arith) (desktop : Rect) (edge : ScreenEdge)
    (hysteresis : Int) (rt : RealtimeCrypto) (steps : List LoopStep) {s : Set Key}
    (hcaptured : ∀ e ∈ steps.filterMap LoopStep.key?, e.1 ∈ s) :
    ∀ e ∈ (hostRun x ar desktop (.start edge hysteresis rt) steps).keysSent, e.1 ∈ s := by
  have hlogged : ∀ {log : List (Key × Bool)} {key : Key}, (∀ e ∈ log, e.1 ∈ s) → Down log key → key ∈ s := by
    intro log key hlog hdown
    by_contra hnot
    exact not_down_of_releases (fun hmem => hnot (hlog _ hmem)) hdown
  induction steps using List.reverseRecOn with
  | nil => exact fun e he => absurd he List.not_mem_nil
  | append_singleton steps step ih =>
    rw [List.filterMap_append] at hcaptured
    have hbefore := fun e he => hcaptured e (List.mem_append_left _ he)
    have hsent := ih hbefore
    have hgood := hostRun_good hsends ar desktop edge hysteresis rt steps
    rw [hostRun_snoc]
    intro e he
    have hcases : e ∈ (hostRun x ar desktop (.start edge hysteresis rt) steps).keysSent ∨
        e.1 ∈ (hostRun x ar desktop (.start edge hysteresis rt) steps).heldRemote ∨
        e.1 ∈ (hostRun x ar desktop (.start edge hysteresis rt) steps).heldModsLocal ∨ step.key? = some e := by
      cases step with
      | head edge snapUi => exact (keysSent_hostHead hsends edge snapUi he).imp_right Or.inl
      | poll event edgeNow => exact keysSent_hostPoll hsends ar desktop event edgeNow he
    rcases hcases with hold | hheld | hmod | hkey
    · exact hsent e hold
    · exact hlogged hsent ((hgood.tracks.mem_iff e.1).mp hheld)
    · exact hlogged hbefore ((hgood.mods e.1).mp hmod).2
    · exact hcaptured e (List.mem_append_right _ (by simp [hkey]))

/-! ### On the device -/

theorem keys_winCalls (ar : Arith) (r : Rect) (calls : List InjectorCall) :
    (calls.map (winCall ar r)).flatMap WinCall.keys = image winKeys (keysIn (calls.filterMap InjectorCall.event?)) := by
  induction calls with
  | nil => rfl
  | cons call calls ih =>
    rw [List.map_cons, List.flatMap_cons, ih]
    cases call with
    | setCursorNorm x y => rfl
    | inject ev =>
      have hsplit : (InjectorCall.inject ev :: calls).filterMap InjectorCall.event? =
          [ev] ++ calls.filterMap InjectorCall.event? := rfl
      rw [hsplit, keysIn_append, image_append, ← keys_winInject ar ev]
      rfl

/-- The call that puts a message in the queue of the injector's thread. -/
def EnigoEvent.call? : EnigoEvent → Option InjectorCall
  | .inject ev => some (.inject ev)
  | .setCursorNorm x y => some (.setCursorNorm x y)
  | .recv => none

def InjectMsg.event? : InjectMsg → Option InputEvent
  | .event ev => some ev
  | .cursorNorm _ _ => none

theorem EnigoInjector.received_queue {ar : Arith} {macos : Bool} {w h : Int} {es : List EnigoEvent} {t : EnigoInjector}
    (hrun : run (step ar) (new macos w h) es = some t) :
    t.received ++ t.queue.filterMap InjectMsg.event? = (es.filterMap EnigoEvent.call?).filterMap InjectorCall.event? := by
  refine run_induction (P := fun es t => t.received ++ t.queue.filterMap InjectMsg.event? =
    (es.filterMap EnigoEvent.call?).filterMap InjectorCall.event?) rfl (fun es t e u _ ih hstep => ?_) es t hrun
  rw [List.filterMap_append, List.filterMap_append, ← ih]
  cases e with
  | inject ev =>
    cases hstep
    simp [EnigoEvent.call?, InjectorCall.event?, InjectMsg.event?]
  | setCursorNorm x y =>
    cases hstep
    rw [List.filterMap_append, ← List.append_assoc]
    rfl
  | recv =>
    refine Eq.trans ?_ (List.append_nil _).symm
    rcases recv_eq_some hstep with ⟨ev, rest, hqueue, rfl⟩ | ⟨x, y, rest, hqueue, rfl⟩ <;> rw [hqueue]
    · exact List.append_assoc ..
    · rfl

theorem EnigoInjector.run_relayed {ar : Arith} {macos : Bool} {w h : Int} {es : List EnigoEvent} {t : EnigoInjector}
    (hrun : run (step ar) (new macos w h) es = some t) : Relayed t :=
  run_invariant (s := new macos w h) (P := Relayed) rfl (fun _ _ _ hrelayed hstep => step_relayed hrelayed hstep) es t hrun

section

variable {x : Crates} {key : Vector UInt8 32} {epoch : BitVec 64} {n n' : Node x} {es : List NodeEvent}

/-- Bob's injector is given the three presses, and its thread receives them. -/
def crossingThread : List EnigoEvent :=
  List.replicate 3 (.inject (.key .shiftLeft true)) ++ List.replicate 3 .recv

end

end ScreenLink
