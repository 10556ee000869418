import ScreenLink.Session.Threads

/-!
# What a session tells the UI about its pairing

A prompt at the gate, and a result at three of the ways the pairing loop ends: a cancellation by either side, and a
pairing that is stored (`tells_of_step`). At the others, a message that does not belong there, the end of the stream
and a failed write of the trust store, the UI is told nothing (`Session.abandons`).
-/

namespace ScreenLink

variable {x : Crates}

/-- The event opens or closes a prompt. -/
def NetEvent.ofPairing : NetEvent → Bool
  | .pairingPrompt .. | .pairingResult .. => true
  | _ => false

namespace AppCore

/-- From `core` to `core'` the UI is told something, and of pairings the events `evs`. -/
def Tells (evs : List NetEvent) (core core' : AppCore x) : Prop :=
  ∃ news, core'.events = core.events ++ news ∧ news.filter NetEvent.ofPairing = evs

variable {core core' core'' : AppCore x} {evs fvs : List NetEvent} {ev : NetEvent}

theorem tells_same (h : core'.events = core.events) : Tells [] core core' :=
  ⟨[], by rw [h, List.append_nil], rfl⟩

theorem tells_emit (h : ev.ofPairing = false) : Tells [] core (core.emit ev) :=
  ⟨[ev], rfl, by simp [h]⟩

theorem tells_pairing (h : ev.ofPairing = true) : Tells [ev] core (core.emit ev) :=
  ⟨[ev], rfl, by simp [h]⟩

theorem Tells.trans (h : Tells evs core core') (h' : Tells fvs core' core'') : Tells (evs ++ fvs) core core'' := by
  obtain ⟨news, hnews, rfl⟩ := h
  obtain ⟨news', hnews', rfl⟩ := h'
  exact ⟨news ++ news', by rw [hnews', hnews, List.append_assoc], List.filter_append ..⟩

theorem Tells.congr (h : Tells evs core core') (hevents : core''.events = core'.events) : Tells evs core core'' := by
  simpa using h.trans (tells_same hevents)

end AppCore

namespace Session

open AppCore

variable {ar : Arith} {core : AppCore x} {s : Session} {event : SessionEvent} {p : AppCore x × Session}
  {info : DeviceInfo}
  {st : PairingState}

/-- The fingerprint whose code the event puts before the user. -/
def prompts (core : AppCore x) (s : Session) (event : SessionEvent) : Option String :=
  match event, s.phase with
  | .checkTrust, .gate info => if core.trust.isTrusted info.id.id then none else some info.id.id
  | _, _ => none

/-- The fingerprint of the prompt the event closes, and the result. -/
def concludes (s : Session) (event : SessionEvent) : Option (String × Bool) :=
  match event, s.phase with
  | .recv (.pairCancel _), .pairing info _ | .cmd .cancel _, .pairing info _ | .cmd .disconnect _, .pairing info _
  | .cmdClosed, .pairing info _ => some (info.id.id, false)
  | .store none, .paired info => some (info.id.id, true)
  | _, _ => none

/-- The event ends the pairing without a word to the UI. -/
def abandons (s : Session) (event : SessionEvent) : Bool :=
  match event, s.phase with
  | .recv .pairBegin, .pairing .. | .recv .pairConfirm, .pairing .. | .recv (.pairCancel _), .pairing .. => false
  | .recv _, .pairing .. | .closed _, .pairing .. | .store (some _), .paired _ => true
  | _, _ => false

/-- The user is asked, or was and the peer is not yet stored. -/
def asks (s : Session) : Option String :=
  match s.phase with
  | .pairing info _ | .paired info => some info.id.id
  | _ => none

/-- The user has not answered. -/
def waits (s : Session) : Option String :=
  match s.phase with
  | .pairing info st => if st.localConfirmed then none else some info.id.id
  | _ => none

theorem tells_forward (os : List HostOut) (hos : ∀ o ∈ os, HostOut.ofLoop o ∨ ∃ ev packet, o = .udp ev packet)
    (core : AppCore x) (s : Session) : Tells [] core (os.foldl forwardOne (core, s)).1 := by
  induction os generalizing core s with
  | nil => exact tells_same rfl
  | cons o os ih =>
    have hrest : ∀ o ∈ os, HostOut.ofLoop o ∨ ∃ ev packet, o = .udp ev packet :=
      fun o ho => hos o (List.mem_cons_of_mem _ ho)
    rw [List.foldl_cons]
    cases o with
    | event event =>
      refine (tells_emit ?_).trans (ih hrest (core.emit event) s)
      rcases hos _ List.mem_cons_self with hloop | ⟨ev, packet, heq⟩
      · cases event <;> first | rfl | exact hloop.elim
      · cases heq
    | ctrl msg => exact ih hrest core (s.send msg)
    | udp | suppress | park => exact ih hrest core s

theorem tells_hostStep (ar : Arith) (core : AppCore x) (s : Session) (h : HostThread) (edge : ScreenEdge)
    (captured : Option CapturedEvent) (edgeNow : ScreenEdge) :
    Tells [] core (hostStep ar core s h edge captured edgeNow).1 := by
  obtain ⟨news, hout, hnews⟩ := hostIter_out (x := x) ar h.desktop h.input ⟨edge, false, captured, edgeNow⟩
  unfold hostStep
  dsimp only
  rw [hout, List.drop_left]
  exact tells_forward news hnews core _

theorem tells_handleInbound (core : AppCore x) (s : Session) (info : DeviceInfo) (msg : ControlMsg) :
    Tells [] core (handleInbound core s info msg).1 := by
  unfold handleInbound
  split
  case h_1 | h_2 | h_3 => split <;> exact tells_same rfl
  case h_6 =>
    split_ifs
    · exact tells_emit rfl
    · exact tells_same rfl
  all_goals exact tells_same rfl

theorem tells_mirrorInbound (core : AppCore x) (s : Session) (info : DeviceInfo) (msg : ControlMsg) :
    Tells [] core (mirrorInbound core s info msg).1 := by
  cases msg with
  | startMirror epoch => exact tells_emit rfl
  | _ => exact tells_same rfl

theorem tells_runningRecv (core : AppCore x) (s : Session) (info : DeviceInfo) (msg : ControlMsg) :
    Tells [] core (runningRecv core s info msg).1 :=
  (tells_mirrorInbound core s info msg).trans
    (tells_handleInbound (mirrorInbound core s info msg).1 (mirrorInbound core s info msg).2 info msg)

theorem tells_runningCmd (core : AppCore x) (s : Session) (info : DeviceInfo) (cmd : SessionCmd) (epoch : BitVec 64) :
    Tells [] core (runningCmd core s info cmd epoch).1 := by
  cases cmd with
  | startMirror =>
    unfold runningCmd
    dsimp only
    split
    · exact tells_same rfl
    · split_ifs
      · exact tells_same rfl
      · exact tells_emit rfl
  | stopMirror =>
    unfold runningCmd
    dsimp only
    split <;> exact tells_same rfl
  | _ => exact tells_same rfl

theorem tells_wire (core : AppCore x) (s : Session) (info : DeviceInfo) (epoch : BitVec 64) (desktop : Rect)
    (err : Option Error) : Tells [] core (wire core s info epoch desktop err).1 := by
  unfold wire
  dsimp only
  split
  · exact tells_emit rfl
  · split
    · exact tells_same rfl
    · exact tells_emit rfl

/-- A step with which the pairing begins, ends, is abandoned, or goes on or is not under way. -/
inductive Turn (core : AppCore x) (s : Session) (event : SessionEvent) (p : AppCore x × Session) : Prop
  | prompts (info : DeviceInfo) (hs : s.phase = .gate info) (hprompts : s.prompts core event = some info.id.id)
    (htells : Tells [.pairingPrompt info.id.id info.name
      (comparisonPin x core.identity.fingerprint info.id.id)] core p.1)
    (hnext : p.2.phase = .pairing info {})
  | concludes (fp : String) (ok : Bool) (hconcludes : s.concludes event = some (fp, ok)) (hasks : s.asks = some fp)
    (htells : Tells [.pairingResult fp ok] core p.1) (hnone : p.2.asks = none)
  | abandons (fp : String) (habandons : s.abandons event = true) (hasks : s.asks = some fp) (htells : Tells [] core p.1)
    (hend : p.2.phase.finished = true)
  | quiet (hprompts : s.prompts core event = none) (hconcludes : s.concludes event = none)
    (habandons : s.abandons event = false) (htells : Tells [] core p.1) (hasks : p.2.asks = s.asks)
    (hwaits : ∀ fp, p.2.waits = some fp → s.waits = some fp)

theorem asks_afterSelect (h : s.phase = afterSelect info st) : s.asks = some info.id.id := by
  unfold asks
  rw [h]
  unfold afterSelect
  split_ifs <;> rfl

theorem waits_afterSelect {fp : String} (h : s.phase = afterSelect info st) (hwaits : s.waits = some fp) :
    st.localConfirmed = false ∧ fp = info.id.id := by
  unfold waits at hwaits
  rw [h] at hwaits
  unfold afterSelect at hwaits
  split_ifs at hwaits
  simp only at hwaits
  split_ifs at hwaits with hlocal
  exact ⟨Bool.not_eq_true _ ▸ hlocal, (Option.some.inj hwaits).symm⟩

theorem asks_eq_none (h : s.asks = none) : s.concludes event = none ∧ s.abandons event = false := by
  have hnot : (∀ info st, s.phase ≠ .pairing info st) ∧ ∀ info, s.phase ≠ .paired info := by
    constructor
    · intro info st hs
      simp [asks, hs] at h
    · intro info hs
      simp [asks, hs] at h
  constructor
  · unfold concludes
    split
    · exact absurd ‹_› (hnot.1 _ _)
    · exact absurd ‹_› (hnot.1 _ _)
    · exact absurd ‹_› (hnot.1 _ _)
    · exact absurd ‹_› (hnot.1 _ _)
    · exact absurd ‹_› (hnot.2 _)
    · rfl
  · unfold abandons
    split
    · rfl
    · rfl
    · rfl
    · exact absurd ‹_› (hnot.1 _ _)
    · exact absurd ‹_› (hnot.1 _ _)
    · exact absurd ‹_› (hnot.2 _)
    · rfl

theorem concludes_eq_some {q : String × Bool} (h : s.concludes event = some q) :
    s.prompts core event = none ∧ s.abandons event = false := by
  unfold concludes at h
  split at h
  case h_6 => cases h
  all_goals
    rename_i hs
    simp [prompts, abandons, hs]

theorem waits_eq_none (h : s.asks = none) : s.waits = none := by
  unfold asks at h
  unfold waits
  cases hs : s.phase <;> simp [hs] at h ⊢

theorem turn_of_outside (hprompts : s.prompts core event = none) (hasks : s.asks = none) (hnext : p.2.asks = none)
    (htells : Tells [] core p.1) : Turn core s event p := by
  refine .quiet hprompts (asks_eq_none hasks).1 (asks_eq_none hasks).2 htells (hnext.trans hasks.symm) fun fp hwaits => ?_
  rw [waits_eq_none hnext] at hwaits
  cases hwaits

theorem turn_of_thread (hthread : event.ofThread = true) (hphase : p.2.phase = s.phase) (htells : Tells [] core p.1) :
    Turn core s event p := by
  have hnone : s.prompts core event = none ∧ s.concludes event = none ∧ s.abandons event = false := by
    cases event with
    | writerDied | host | hostExit | sender | clipboard | clipExit => exact ⟨rfl, rfl, rfl⟩
    | _ => cases hthread
  refine .quiet hnone.1 hnone.2.1 hnone.2.2 htells ?_ fun fp hwaits => ?_
  · unfold asks
    rw [hphase]
  · unfold waits at hwaits ⊢
    rwa [hphase] at hwaits

theorem turn_of_afterSelect {st' : PairingState} (hs : s.phase = .pairing info st)
    (hphase : p.2.phase = afterSelect info st') (hlocal : st'.localConfirmed = false → st.localConfirmed = false)
    (hprompts : s.prompts core event = none) (hconcludes : s.concludes event = none)
    (habandons : s.abandons event = false) (htells : Tells [] core p.1) : Turn core s event p := by
  refine .quiet hprompts hconcludes habandons htells ?_ fun fp hwaits => ?_
  · rw [asks_afterSelect hphase]
    simp [asks, hs]
  · obtain ⟨hopen, rfl⟩ := waits_afterSelect hphase hwaits
    simp [waits, hs, hlocal hopen]

theorem asks_of_phase (hs : s.phase = .running info ∨ ∃ result, s.phase = .closing info result) : s.asks = none := by
  rcases hs with hs | ⟨result, hs⟩ <;> simp [asks, hs]

theorem turn_of_step (h : s.step ar core event = some p) : Turn core s event p := by
  cases steps_of_step h with
  | sayHello hs | startClosed err hs | helloClosed err hs | setSlot info hs =>
    exact turn_of_outside rfl (by simp [asks, hs]) rfl (tells_same rfl)
  | recvHello msg hs =>
    refine turn_of_outside rfl (by simp [asks, hs]) ?_ (tells_same rfl)
    unfold recvHello
    split
    · split_ifs <;> rfl
    · rfl
  | checkTrust info hs =>
    unfold checkTrust
    split_ifs with htrusted
    · exact turn_of_outside (by simp [prompts, hs, htrusted]) (by simp [asks, hs]) rfl (tells_same rfl)
    · refine .prompts info hs (by simp [prompts, hs, htrusted]) ?_ rfl
      exact (tells_emit rfl).trans (tells_pairing rfl)
  | pairingRecv info st msg hs =>
    cases msg with
    | pairBegin | pairConfirm =>
      exact turn_of_afterSelect hs rfl id rfl (by simp [concludes]) (by simp [abandons, hs]) (tells_same rfl)
    | pairCancel reason =>
      exact .concludes info.id.id false (by simp [concludes, hs]) (by simp [asks, hs]) (tells_pairing rfl) rfl
    | _ => exact .abandons info.id.id (by simp [abandons, hs]) (by simp [asks, hs]) (tells_same rfl) rfl
  | pairingClosed info st err hs =>
    exact .abandons info.id.id (by simp [abandons, hs]) (by simp [asks, hs]) (tells_same rfl) rfl
  | pairingCmd info st cmd epoch hs =>
    cases cmd with
    | confirm =>
      exact turn_of_afterSelect hs rfl nofun rfl (by simp [concludes]) (by simp [abandons]) (tells_same rfl)
    | cancel | disconnect =>
      exact .concludes info.id.id false (by simp [concludes, hs]) (by simp [asks, hs]) (tells_pairing rfl) rfl
    | _ => exact turn_of_afterSelect hs rfl id rfl (by simp [concludes]) (by simp [abandons]) (tells_same rfl)
  | pairingCmdClosed info st hs =>
    exact .concludes info.id.id false (by simp [concludes, hs]) (by simp [asks, hs]) (tells_pairing rfl) rfl
  | store info err hs =>
    cases err with
    | none =>
      refine .concludes info.id.id true (by simp [concludes, hs]) (by simp [asks, hs]) ?_ rfl
      exact ((tells_same rfl).trans (tells_pairing rfl)).trans (tells_emit rfl)
    | some err => exact .abandons info.id.id (by simp [abandons, hs]) (by simp [asks, hs]) (tells_same rfl) rfl
  | wire info epoch desktop err hs =>
    refine turn_of_outside rfl (by simp [asks, hs]) ?_ (tells_wire core s info epoch desktop err)
    unfold wire
    dsimp only
    split
    · rfl
    · split <;> rfl
  | runningRecv info msg hs =>
    refine turn_of_outside rfl (asks_of_phase (Or.inl hs)) ?_ (tells_runningRecv core s info msg)
    have hphase := phase_runningRecv core s info msg
    rw [hs] at hphase
    exact asks_of_phase hphase
  | runningClosed info err hs | runningCmdClosed info hs =>
    exact turn_of_outside rfl (asks_of_phase (Or.inl hs)) rfl (tells_same rfl)
  | runningCmd info cmd epoch hs =>
    refine turn_of_outside rfl (asks_of_phase (Or.inl hs)) ?_ (tells_runningCmd core s info cmd epoch)
    have hphase := phase_runningCmd core s info cmd epoch
    rw [hs] at hphase
    exact asks_of_phase (hphase.imp_right fun hclosing => ⟨none, hclosing⟩)
  | tick info hs =>
    refine turn_of_outside rfl (asks_of_phase (Or.inl hs)) ?_ (tells_same rfl)
    unfold tick
    dsimp only
    split_ifs
    · rfl
    · exact asks_of_phase (Or.inl hs)
  | teardown info result hs => exact turn_of_outside rfl (asks_of_phase (Or.inr ⟨result, hs⟩)) rfl (tells_emit rfl)
  | host t edge captured edgeNow hhost hlive =>
    obtain ⟨events, out, heq⟩ := hostStep_eq ar core s t edge captured edgeNow
    refine turn_of_thread rfl ?_ (tells_hostStep ar core s t edge captured edgeNow)
    rw [heq]
  | writerDied hslot => exact turn_of_thread rfl rfl (tells_same rfl)
  | hostExit t hhost hstop => exact turn_of_thread rfl rfl (tells_same rfl)
  | sender i ev t t' ht hstep => exact turn_of_thread rfl rfl (tells_same rfl)
  | clipboard text hclip => exact turn_of_thread rfl rfl (tells_same rfl)
  | clipExit result hs => exact turn_of_thread rfl rfl (tells_same rfl)

end Session

end ScreenLink
