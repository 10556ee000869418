import ScreenLink.Input.Release

/-!
# One lost datagram

Presses and releases on a crossing and on the way home are sent three times, so losing one copy does not matter. A key
event that is relayed is sent once, and a released key is forgotten, so its release is not repeated on the way home.
So the keys the peer holds are none whenever control is local, with one datagram lost and the others delivered in
order, unless the lost one carries the relayed release of a key that is held for the peer, and no further event of that
key is relayed before control is home (`one_loss_iff`). Every other loss is harmless.
-/

namespace ScreenLink

open HeldKeys HostInput

/-- The key events among input events. -/
def keysIn (evs : List InputEvent) : List (Key × Bool) := evs.filterMap InputEvent.key?

theorem mem_keysIn {evs : List InputEvent} {key : Key} {pressed : Bool} :
    (key, pressed) ∈ keysIn evs ↔ .key key pressed ∈ evs := by
  rw [keysIn, List.mem_filterMap]
  constructor
  · rintro ⟨ev, hev, hkey⟩
    cases ev with
    | key pos b =>
      obtain ⟨rfl, rfl⟩ := Prod.mk.inj (Option.some.inj hkey)
      exact hev
    | _ => cases hkey
  · intro hmem
    exact ⟨_, hmem, rfl⟩

theorem keysIn_append (evs later : List InputEvent) : keysIn (evs ++ later) = keysIn evs ++ keysIn later :=
  List.filterMap_append

theorem mem_keyEvents {pressed : Bool} {keys : List Key} {ev : InputEvent} (hev : ev ∈ keyEvents pressed keys) :
    ∃ key ∈ keys, ev = .key key pressed := by
  obtain ⟨key, hkey, hrep⟩ := List.mem_flatMap.mp hev
  exact ⟨key, hkey, List.eq_of_mem_replicate hrep⟩

theorem count_keyEvents (ev : InputEvent) (pressed : Bool) (keys : List Key) :
    ∃ n, (keyEvents pressed keys).count ev = MOD_SYNC_REPEAT * n := by
  induction keys with
  | nil => exact ⟨0, rfl⟩
  | cons key keys ih =>
    obtain ⟨n, hn⟩ := ih
    have hsplit : keyEvents pressed (key :: keys) =
        List.replicate MOD_SYNC_REPEAT (.key key pressed) ++ keyEvents pressed keys := rfl
    rw [hsplit, List.count_append, hn, List.count_replicate]
    split_ifs
    · exact ⟨n + 1, by rw [Nat.mul_succ, Nat.add_comm]⟩
    · exact ⟨n, Nat.zero_add _⟩

/-- One release out of a drain of held keys is not missed: before it or after it there is another. -/
theorem drain_covers {log : List (Key × Bool)} {keys : List Key} {evs₁ evs₂ : List InputEvent} {key : Key}
    (hdrain : keyEvents false keys = evs₁ ++ .key key false :: evs₂) (hdown : Down (log ++ keysIn evs₁) key)
    (hnone : ∀ b, (key, b) ∉ keysIn evs₂) : False := by
  obtain ⟨n, hn⟩ := count_keyEvents (.key key false) false keys
  have hrelease : ∀ b, (key, b) ∉ keysIn evs₁ := by
    rcases (down_append log (keysIn evs₁) key).mp hdown with hlater | ⟨-, hnot⟩
    · -- the drain presses nothing
      refine absurd hlater (not_down_of_releases fun hpress => ?_)
      have hmem : InputEvent.key key true ∈ keyEvents false keys := by
        rw [hdrain]
        exact List.mem_append_left _ (mem_keysIn.mp hpress)
      obtain ⟨pos, -, heq⟩ := mem_keyEvents hmem
      cases heq
    · exact hnot
  have hbefore : evs₁.count (.key key false) = 0 :=
    List.count_eq_zero_of_not_mem fun hmem => hrelease false (mem_keysIn.mpr hmem)
  have hafter : evs₂.count (.key key false) = 0 :=
    List.count_eq_zero_of_not_mem fun hmem => hnone false (mem_keysIn.mpr hmem)
  rw [hdrain, List.count_append, List.count_cons_self, hbefore, hafter, MOD_SYNC_REPEAT] at hn
  omega

theorem exists_split_at {α : Type*} {l : List α} {m : ℕ} (hm : m < l.length) :
    ∃ before e after, l = before ++ e :: after ∧ before.length = m := by
  refine ⟨l.take m, l[m], l.drop (m + 1), ?_, ?_⟩
  · rw [← List.drop_eq_getElem_cons hm, List.take_append_drop]
  · rw [List.length_take, Nat.min_eq_left hm.le]

/-- What the peer gets when datagram `m` is lost. -/
def HostInput.deliveredWithout (h : HostInput) (m : ℕ) : List InputEvent := h.sent.eraseIdx m

section
variable (x : Crates) (ar : Arith) (desktop : Rect)

/-- Whenever control is local, the peer holds no key down, with datagram `m` lost. -/
def SurvivesLoss (h : HostInput) (steps : List LoopStep) (m : ℕ) : Prop :=
  ∀ front back, steps = front ++ back → (hostRun x ar desktop h front).det.site = .local →
    NothingDown (keysIn ((hostRun x ar desktop h front).deliveredWithout m))

/-- Datagram `m` carries the relayed release of a key held for the peer, and no further event of that key is relayed
until control is local. -/
def LosesRelease (h : HostInput) (steps : List LoopStep) (m : ℕ) : Prop :=
  ∃ front key edgeNow between back,
    steps = front ++ .poll (some (.input (.key key false))) edgeNow :: (between ++ back) ∧
      (hostRun x ar desktop h front).det.site = .remote ∧ key ∈ (hostRun x ar desktop h front).heldRemote ∧
      (hostRun x ar desktop h front).sent.length = m ∧
      (∀ pressed, .key key pressed ∉ relayed x ar desktop
        (hostRun x ar desktop h (front ++ [.poll (some (.input (.key key false))) edgeNow])) between) ∧
      (hostRun x ar desktop h (front ++ .poll (some (.input (.key key false))) edgeNow :: between)).det.site = .local

end

section
variable {x : Crates} {ar : Arith} {desktop : Rect} {h : HostInput}

theorem sent_run (hsends : x.Sends) (ar : Arith) (desktop : Rect) (h : HostInput) (steps : List LoopStep) :
    ∃ later, (hostRun x ar desktop h steps).sent = h.sent ++ later ∧
      ∀ ev ∈ relayed x ar desktop h steps, ev ∈ later := by
  induction steps generalizing h with
  | nil => exact ⟨[], (List.append_nil _).symm, fun ev hev => hev⟩
  | cons step steps ih =>
    obtain ⟨later, hlater, hrelayed⟩ := ih (loopStep x ar desktop h step)
    obtain ⟨chunk, hchunk, hrelays⟩ : ∃ chunk, (loopStep x ar desktop h step).sent = h.sent ++ chunk ∧
        ∀ ev, h.relays step = some ev → ev ∈ chunk := by
      rcases loopStep_sends hsends ar desktop h step with
        ⟨-, hnone, -, hsent⟩ | ⟨-, -, hnone, -, hsent⟩ | ⟨keys, -, -, hnone, -, hsent⟩ | ⟨-, -, hnone, -, hsent⟩ |
        ⟨-, -, hnone, -, hsent⟩ | ⟨ev, -, -, hsome, -, hsent⟩
      · exact ⟨[], by simp [hsent], by simp [hnone]⟩
      · exact ⟨_, hsent, by simp [hnone]⟩
      · exact ⟨_, hsent, by simp [hnone]⟩
      · exact ⟨_, hsent, by simp [hnone]⟩
      · exact ⟨_, hsent, by simp [hnone]⟩
      · exact ⟨_, hsent, by simp [hsome]⟩
    refine ⟨chunk ++ later, ?_, fun ev hev => ?_⟩
    · rw [hostRun, List.foldl_cons, ← hostRun, hlater, hchunk, List.append_assoc]
    · rw [relayed, List.mem_append, Option.mem_toList] at hev
      rcases hev with hnow | hlater'
      · exact List.mem_append_left _ (hrelays ev hnow)
      · exact List.mem_append_right _ (hrelayed ev hlater')

variable (x ar desktop h) in
/-- `step` sends `ev`, after the events `before` and before `after`. -/
def SendsAt (steps : List LoopStep) (before : List InputEvent) (ev : InputEvent) (after : List InputEvent) : Prop :=
  ∃ front step back evs₁ evs₂ later, steps = front ++ step :: back ∧
    before = (hostRun x ar desktop h front).sent ++ evs₁ ∧ after = evs₂ ++ later ∧
    (hostRun x ar desktop h (front ++ [step])).sent =
      (hostRun x ar desktop h front).sent ++ (evs₁ ++ ev :: evs₂) ∧
    ∀ e ∈ relayed x ar desktop (hostRun x ar desktop h (front ++ [step])) back, e ∈ later

theorem sendsAt_of_sent (hsends : x.Sends) {steps : List LoopStep} {before after : List InputEvent}
    {ev : InputEvent} (hsent : (hostRun x ar desktop h steps).sent = h.sent ++ (before ++ ev :: after)) :
    SendsAt x ar desktop h steps (h.sent ++ before) ev after := by
  induction steps generalizing h before with
  | nil =>
    rw [show (hostRun x ar desktop h []).sent = h.sent from rfl] at hsent
    simp at hsent
  | cons step steps ih =>
    obtain ⟨chunk, hchunk, -⟩ := sent_run hsends ar desktop h [step]
    obtain ⟨later, hlater, hrelayed⟩ := sent_run hsends ar desktop (loopStep x ar desktop h step) steps
    change (loopStep x ar desktop h step).sent = h.sent ++ chunk at hchunk
    change (hostRun x ar desktop (loopStep x ar desktop h step) steps).sent = _ at hsent
    -- sent by a later step
    have hnext : ∀ before', before = chunk ++ before' → later = before' ++ ev :: after →
        SendsAt x ar desktop h (step :: steps) (h.sent ++ before) ev after := by
      rintro before' rfl rfl
      obtain ⟨front, e, back, evs₁, evs₂, later', rfl, hbefore, hafter, hthere, hrest⟩ := ih hlater
      refine ⟨step :: front, e, back, evs₁, evs₂, later', rfl, ?_, hafter, hthere, hrest⟩
      rw [← List.append_assoc, ← hchunk]
      exact hbefore
    have hsplit : chunk ++ later = before ++ ev :: after := by
      rw [hlater, hchunk, List.append_assoc] at hsent
      exact List.append_cancel_left hsent
    rcases List.append_eq_append_iff.mp hsplit with ⟨before', hbefore, hrest⟩ | ⟨evs, hhere, hrest⟩
    · exact hnext before' hbefore hrest
    · cases evs with
      | nil => exact hnext [] (by simpa using hhere.symm) (by simpa using hrest.symm)
      | cons e evs₂ =>
        obtain ⟨rfl, rfl⟩ := List.cons.inj hrest
        refine ⟨[], step, steps, before, evs₂, later, rfl, rfl, rfl, ?_, hrelayed⟩
        rw [← hhere]
        exact hchunk

variable (x ar desktop h) in
/-- Control comes home in the run, and until then nothing is sent about `key`. -/
def HomeWithout (steps : List LoopStep) (key : Key) : Prop :=
  ∃ front back later, steps = front ++ back ∧ (hostRun x ar desktop h front).det.site = .local ∧
    (hostRun x ar desktop h front).sent = h.sent ++ later ∧ ∀ b, (key, b) ∉ keysIn later

/-- After the release of a key, with control still remote, nothing is sent about it until it is relayed again. -/
theorem quiet_until_home (hsends : x.Sends) {key : Key} {between : List LoopStep} (hremote : h.det.site = .remote)
    (hheld : key ∉ h.heldRemote) (hrelayed : ∀ pressed, .key key pressed ∉ relayed x ar desktop h between)
    (hlocal : (hostRun x ar desktop h between).det.site = .local) :
    HomeWithout x ar desktop h between key := by
  induction between generalizing h with
  | nil =>
    rw [show (hostRun x ar desktop h []).det.site = h.det.site from rfl, hremote] at hlocal
    cases hlocal
  | cons step between ih =>
    have hthen : ∀ pressed, .key key pressed ∉ relayed x ar desktop (loopStep x ar desktop h step) between :=
      fun pressed hmem => hrelayed pressed (List.mem_append_right _ hmem)
    -- control stays remote, the key stays released
    have hnext : ∀ chunk, (loopStep x ar desktop h step).det.site = .remote →
        key ∉ (loopStep x ar desktop h step).heldRemote →
        (loopStep x ar desktop h step).sent = h.sent ++ chunk → (∀ b, (key, b) ∉ keysIn chunk) →
        HomeWithout x ar desktop h (step :: between) key := by
      intro chunk hremote' hheld' hchunk hnone
      obtain ⟨front, back, later, rfl, hhome, hlater, hquiet⟩ := ih hremote' hheld' hthen hlocal
      refine ⟨step :: front, back, chunk ++ later, rfl, hhome, ?_, fun b hmem => ?_⟩
      · rw [← List.append_assoc, ← hchunk]
        exact hlater
      · rw [keysIn_append, List.mem_append] at hmem
        exact hmem.elim (hnone b) (hquiet b)
    -- control comes home, the held keys are released
    have hhome : ∀ chunk, (loopStep x ar desktop h step).det.site = .local →
        (loopStep x ar desktop h step).sent = h.sent ++ chunk → (∀ b, (key, b) ∉ keysIn chunk) →
        HomeWithout x ar desktop h (step :: between) key :=
      fun chunk hlocal' hchunk hnone => ⟨[step], between, chunk, rfl, hlocal', hchunk, hnone⟩
    have hdrain : ∀ b, .key key b ∉ keyEvents false h.heldRemote := by
      intro b hmem
      obtain ⟨pos, hpos, heq⟩ := mem_keyEvents hmem
      cases heq
      exact hheld hpos
    rcases loopStep_sends hsends ar desktop h step with
      ⟨hsite, -, hsame, hsent⟩ | ⟨-, hlocal', -, -, hsent⟩ | ⟨keys, hlocal', -, -, -, -⟩ |
      ⟨-, hremote', -, hsame, hsent⟩ | ⟨-, hlocal', -, -, hsent⟩ | ⟨ev, -, hremote', hsome, hafter, hsent⟩
    · exact hnext [] (hsite.trans hremote) (hsame ▸ hheld) (by rw [hsent, List.append_nil]) fun b hmem => by cases hmem
    · exact hhome _ hlocal' hsent fun b hmem => hdrain b (mem_keysIn.mp hmem)
    · rw [hremote] at hlocal'
      cases hlocal'
    · exact hnext _ hremote' (hsame ▸ hheld) hsent fun b hmem => by cases hmem
    · refine hhome _ hlocal' hsent fun b hmem => ?_
      rcases List.mem_cons.mp (mem_keysIn.mp hmem) with heq | hmem'
      · cases heq
      · exact hdrain b hmem'
    · have hother : ∀ b, ev ≠ .key key b := by
        rintro b rfl
        refine hrelayed b (List.mem_append_left _ ?_)
        rw [hsome]
        exact List.mem_singleton_self _
      refine hnext [ev] hremote' ?_ hsent fun b hmem => ?_
      · rw [hafter]
        cases ev with
        | key pos b =>
          have hne : key ≠ pos := by
            rintro rfl
            exact hother b rfl
          cases b <;> simp [heldAfter, hne, hheld]
        | _ => exact hheld
      · exact hother b (List.mem_singleton.mp (mem_keysIn.mp hmem)).symm

theorem poll_of_relays {step : LoopStep} {key : Key} {pressed : Bool}
    (hrelays : h.relays step = some (.key key pressed)) :
    ∃ edgeNow, step = .poll (some (.input (.key key pressed))) edgeNow := by
  rcases step with _ | ⟨_ | _ | ev, edgeNow⟩
  · cases hrelays
  · cases hrelays
  · cases hrelays
  · refine ⟨edgeNow, ?_⟩
    cases ev with
    | key pos b =>
      simp only [relays, Option.ite_none_right_eq_some, Option.some.injEq] at hrelays
      rw [hrelays.2]
    | _ => simp [relays] at hrelays

theorem loopStep_relay (hsends : x.Sends) (ar : Arith) (desktop : Rect) {step : LoopStep} {ev : InputEvent}
    (hrelays : h.relays step = some ev) :
    (loopStep x ar desktop h step).det.site = .remote ∧
      (loopStep x ar desktop h step).heldRemote = heldAfter h.heldRemote ev ∧
      (loopStep x ar desktop h step).sent = h.sent ++ [ev] := by
  rcases loopStep_sends hsends ar desktop h step with
    ⟨-, hnone, -, -⟩ | ⟨-, -, hnone, -, -⟩ | ⟨keys, -, -, hnone, -, -⟩ | ⟨-, -, hnone, -, -⟩ |
    ⟨-, -, hnone, -, -⟩ | ⟨e, -, hremote, hsome, hheld, hsent⟩
  · rw [hrelays] at hnone
    cases hnone
  · rw [hrelays] at hnone
    cases hnone
  · rw [hrelays] at hnone
    cases hnone
  · rw [hrelays] at hnone
    cases hnone
  · rw [hrelays] at hnone
    cases hnone
  · obtain rfl : ev = e := Option.some.inj (hrelays.symm.trans hsome)
    exact ⟨hremote, hheld, hsent⟩

theorem relays_release (hremote : h.det.site = .remote) (key : Key) (edgeNow : ScreenEdge) :
    h.relays (.poll (some (.input (.key key false))) edgeNow) = some (.key key false) := by
  have hchord : (h.hotkey.onKey key false).2 = false := by cases key <;> rfl
  simp [relays, hremote, hchord]

end

/-! ### The loss of one datagram -/

section
variable {x : Crates} {ar : Arith} {desktop : Rect} {edge : ScreenEdge} {hysteresis : Int} {rt : RealtimeCrypto}

theorem mem_heldRemote_iff (hsends : x.Sends) (steps : List LoopStep) (key : Key) :
    key ∈ (hostRun x ar desktop (.start edge hysteresis rt) steps).heldRemote ↔
      Down (keysIn (hostRun x ar desktop (.start edge hysteresis rt) steps).sent) key := by
  rw [keysIn, ← keysSent_eq]
  exact (hostRun_good hsends ar desktop edge hysteresis rt steps).tracks.mem_iff key

theorem nothingDown_of_local (hsends : x.Sends) {steps : List LoopStep}
    (hlocal : (hostRun x ar desktop (.start edge hysteresis rt) steps).det.site = .local) :
    NothingDown (keysIn (hostRun x ar desktop (.start edge hysteresis rt) steps).sent) := by
  intro key hdown
  have hmem := (mem_heldRemote_iff hsends steps key).mpr hdown
  have hempty : (hostRun x ar desktop (.start edge hysteresis rt) steps).heldRemote = [] :=
    (hostRun_good hsends ar desktop edge hysteresis rt steps).atHome hlocal
  rw [hempty] at hmem
  cases hmem

theorem losesRelease_of_down (hsends : x.Sends) {steps : List LoopStep} {m : ℕ} {key : Key}
    (hlocal : (hostRun x ar desktop (.start edge hysteresis rt) steps).det.site = .local)
    (hdown : Down (keysIn ((hostRun x ar desktop (.start edge hysteresis rt) steps).deliveredWithout m)) key) :
    LosesRelease x ar desktop (.start edge hysteresis rt) steps m := by
  have hup := nothingDown_of_local hsends hlocal key
  rw [HostInput.deliveredWithout] at hdown
  by_cases hm : (hostRun x ar desktop (.start edge hysteresis rt) steps).sent.length ≤ m
  · rw [List.eraseIdx_of_length_le hm] at hdown
    exact absurd hdown hup
  -- the datagram that is lost
  obtain ⟨before, ev, after, hsent, hlength⟩ := exists_split_at (Nat.not_le.mp hm)
  have herase : (before ++ ev :: after).eraseIdx m = before ++ after := by
    rw [← hlength, List.eraseIdx_append_of_length_le (Nat.le_refl _)]
    simp
  rw [hsent] at hup hdown
  rw [herase, keysIn_append] at hdown
  obtain ⟨hev, hheld, hnone⟩ : ev = .key key false ∧ Down (keysIn before) key ∧ ∀ b, (key, b) ∉ keysIn after := by
    rw [keysIn_append] at hup
    cases hkey : ev.key? with
    | none =>
      rw [show keysIn (ev :: after) = keysIn after from List.filterMap_cons_none hkey] at hup
      exact absurd hdown hup
    | some e =>
      rw [show keysIn (ev :: after) = e :: keysIn after from List.filterMap_cons_some hkey] at hup
      obtain ⟨rfl, hheld, hnone⟩ := down_of_loss hup hdown
      cases ev with
      | key pos b =>
        obtain ⟨rfl, rfl⟩ := Prod.mk.inj (Option.some.inj hkey)
        exact ⟨rfl, hheld, hnone⟩
      | _ => cases hkey
  subst hev
  -- the step that sends it
  obtain ⟨front, step, back, evs₁, evs₂, later, rfl, rfl, rfl, hthere, hrelayed⟩ :=
    sendsAt_of_sent (h := .start edge hysteresis rt) hsends hsent
  rw [keysIn_append] at hheld
  have hlate : ∀ b, (key, b) ∉ keysIn evs₂ := fun b hmem => hnone b (by
    rw [keysIn_append]
    exact List.mem_append_left _ hmem)
  rw [hostRun_snoc] at hthere
  rcases loopStep_sends hsends ar desktop (hostRun x ar desktop (.start edge hysteresis rt) front) step with
    ⟨-, -, -, hchunk⟩ | ⟨-, -, -, -, hchunk⟩ | ⟨keys, -, -, -, -, hchunk⟩ | ⟨-, -, -, -, hchunk⟩ |
    ⟨-, -, -, -, hchunk⟩ | ⟨ev, hremote, -, hrelays, -, hchunk⟩
  · rw [hchunk] at hthere
    simp at hthere
  · rw [hchunk] at hthere
    exact (drain_covers (List.append_cancel_left hthere) hheld hlate).elim
  · rw [hchunk] at hthere
    have hmem : InputEvent.key key false ∈ keyEvents true keys := by
      rw [List.append_cancel_left hthere]
      simp
    obtain ⟨pos, -, heq⟩ := mem_keyEvents hmem
    cases heq
  · rw [hchunk] at hthere
    have hmem := congrArg (InputEvent.key key false ∈ ·) (List.append_cancel_left hthere)
    simp at hmem
  · rw [hchunk] at hthere
    have hcancel := List.append_cancel_left hthere
    cases evs₁ with
    | nil => cases hcancel
    | cons e evs₁ =>
      obtain ⟨rfl, hdrain⟩ := List.cons.inj hcancel
      exact (drain_covers hdrain hheld hlate).elim
  · rw [hchunk] at hthere
    have hcancel := List.append_cancel_left hthere
    have hlone : evs₁ = [] ∧ ev = .key key false := by
      cases evs₁ with
      | nil => exact ⟨rfl, (List.cons.inj hcancel).1⟩
      | cons e evs₁ => simp at hcancel
    obtain ⟨rfl, rfl⟩ := hlone
    obtain ⟨edgeNow, rfl⟩ := poll_of_relays hrelays
    refine ⟨front, key, edgeNow, back, [], by rw [List.append_nil], hremote, ?_, ?_, ?_, hlocal⟩
    · rw [mem_heldRemote_iff hsends]
      simpa [keysIn] using hheld
    · rw [← hlength, List.append_nil]
    · intro pressed hmem
      refine hnone pressed ?_
      rw [keysIn_append]
      exact List.mem_append_right _ (mem_keysIn.mpr (hrelayed _ hmem))

theorem not_survivesLoss (hsends : x.Sends) {steps : List LoopStep} {m : ℕ}
    (hloses : LosesRelease x ar desktop (.start edge hysteresis rt) steps m) :
    ¬ SurvivesLoss x ar desktop (.start edge hysteresis rt) steps m := by
  intro hsurvives
  obtain ⟨front, key, edgeNow, between, back, rfl, hremote, hheld, hlength, hrelayed, hlocal⟩ := hloses
  obtain ⟨hremote', hafter, hsent⟩ := loopStep_relay hsends ar desktop (relays_release hremote key edgeNow)
  rw [← hostRun_snoc] at hremote' hafter hsent
  have hreleased : key ∉ (hostRun x ar desktop (.start edge hysteresis rt)
      (front ++ [.poll (some (.input (.key key false))) edgeNow])).heldRemote := by
    rw [hafter]
    simp [heldAfter]
  rw [List.append_cons, hostRun_append] at hlocal
  -- from the release on nothing is sent about the key until control is local
  obtain ⟨early, late, later, rfl, hhome, hlater, hquiet⟩ :=
    quiet_until_home hsends hremote' hreleased hrelayed hlocal
  rw [← hostRun_append] at hhome hlater
  refine hsurvives (front ++ [.poll (some (.input (.key key false))) edgeNow] ++ early) (late ++ back) (by simp) hhome
    key ?_
  have hdelivered : (hostRun x ar desktop (.start edge hysteresis rt)
      (front ++ [.poll (some (.input (.key key false))) edgeNow] ++ early)).deliveredWithout m =
        (hostRun x ar desktop (.start edge hysteresis rt) front).sent ++ later := by
    rw [HostInput.deliveredWithout, hlater, hsent, ← hlength, List.append_assoc,
      List.eraseIdx_append_of_length_le (Nat.le_refl _)]
    simp
  rw [hdelivered, keysIn_append, down_append]
  exact Or.inr ⟨(mem_heldRemote_iff hsends front key).mp hheld, hquiet⟩

/-- For any run: whenever control is local no key is down in what has been sent; and with datagram `m` lost and all
others delivered in order this stays so iff the datagram does not carry the relayed release of a key held for the
peer, of which no further event is relayed until control is local. -/
theorem one_loss_iff {x : Crates} (hsends : x.Sends) (ar : Arith) (desktop : Rect) (edge : ScreenEdge)
    (hysteresis : Int) (rt : RealtimeCrypto) (ticks : List HostTick) :
    (∀ front back, stepsOf ticks = front ++ back →
        (hostRun x ar desktop (.start edge hysteresis rt) front).det.site = .local →
        NothingDown (keysIn (hostRun x ar desktop (.start edge hysteresis rt) front).sent)) ∧
      ∀ m, SurvivesLoss x ar desktop (.start edge hysteresis rt) (stepsOf ticks) m ↔
        ¬ LosesRelease x ar desktop (.start edge hysteresis rt) (stepsOf ticks) m := by
  refine ⟨fun front back _ hlocal => nothingDown_of_local hsends hlocal, fun m => ⟨fun hsurvives hloses =>
    not_survivesLoss hsends hloses hsurvives, fun hkeeps front back hsplit hlocal key hdown => hkeeps ?_⟩⟩
  obtain ⟨front', pos, edgeNow, between, rest, rfl, hloses⟩ := losesRelease_of_down hsends hlocal hdown
  exact ⟨front', pos, edgeNow, between, rest ++ back, by simp [hsplit], hloses⟩

/-- The cursor crosses, the left Shift key is pressed, and the user snaps home while it is held. -/
def heldTicks : List HostTick :=
  [⟨.right, false, some (.move 5 0 1919 540), .right⟩,
    ⟨.right, false, some (.input (.key .shiftLeft true)), .right⟩,
    ⟨.right, true, none, .right⟩]

/-- The press is lost. -/
theorem one_loss_iff_held :
    SurvivesLoss dragCrates .exact ⟨0, 0, 1920, 1080⟩ dragStart (stepsOf heldTicks) 0 := by
  refine ((one_loss_iff dragCrates_sends .exact ⟨0, 0, 1920, 1080⟩ .right 25
    (RealtimeCrypto.new (Vector.replicate 32 7) 1 true) heldTicks).2 0).mpr ?_
  rintro ⟨front, key, edgeNow, between, back, hsplit, -⟩
  have hmem : LoopStep.poll (some (.input (.key key false))) edgeNow ∈ stepsOf heldTicks := by
    rw [hsplit]
    simp
  simp [stepsOf, heldTicks, HostTick.steps] at hmem

/-- The cursor crosses, the left Shift key is pressed and released, and the user snaps home. -/
def tapTicks : List HostTick :=
  [⟨.right, false, some (.move 5 0 1919 540), .right⟩,
    ⟨.right, false, some (.input (.key .shiftLeft true)), .right⟩,
    ⟨.right, false, some (.input (.key .shiftLeft false)), .right⟩,
    ⟨.right, true, none, .right⟩]

/-- With the datagram of the release lost, Shift is still down on the peer when control is home. -/
theorem release_lost : ¬ SurvivesLoss dragCrates .exact ⟨0, 0, 1920, 1080⟩ dragStart (stepsOf tapTicks) 1 := by
  intro hsurvives
  have hup := hsurvives (stepsOf tapTicks) [] (List.append_nil _).symm (by decide +kernel) .shiftLeft
  revert hup
  decide +kernel

end

end ScreenLink
