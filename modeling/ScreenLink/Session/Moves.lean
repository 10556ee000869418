import ScreenLink.Session.Run

/-!
# What one step of a session can do

`Session.Steps` is the step function as a relation, one constructor for each branch (`steps_of_step`). From it: the
phase changes with their guards (`step_moves`), what no event changes and which events change the trust store and
the slot (`step_frame`, `step_store`, `step_setSlot`), how the inbound channel can change (`step_inboundRt`), and
which events call the injector (`step_injector`).
Later proofs use these and never unfold `step`.
-/

namespace ScreenLink

/-- The event belongs to a thread of the session, not to `run_session`. -/
def SessionEvent.ofThread : SessionEvent → Bool
  | .writerDied | .host .. | .hostExit | .sender .. | .clipboard _ | .clipExit => true
  | _ => false

/-- The event is one the main loop waits for. -/
def SessionEvent.ofMainLoop : SessionEvent → Bool
  | .recv _ | .closed _ | .cmd .. | .cmdClosed | .tick => true
  | _ => false

/-- The phase changes of a session, where `trusted` is the trust store's answer at that moment. -/
inductive Phase.Moves (trusted : String → Bool) : Phase → SessionEvent → Phase → Prop
  | sayHello : Moves trusted .start .sayHello .hello
  | startFailed (err : Error) : Moves trusted .start (.closed err) (.ended (some (.failed err)))
  | helloFailed (err : Error) : Moves trusted .hello (.closed err) (.ended (some (.failed err)))
  | helloRefused (msg : ControlMsg) (err : SessionError) : Moves trusted .hello (.recv msg) (.ended (some err))
  | greeted (info : DeviceInfo) : Moves trusted .hello (.recv (.hello PROTOCOL_VERSION info)) (.greeted info)
  | setSlot (info : DeviceInfo) : Moves trusted (.greeted info) .setSlot (.gate info)
  | trusted (info : DeviceInfo) (h : trusted info.id.id = true) :
    Moves trusted (.gate info) .checkTrust (.authenticated info)
  | untrusted (info : DeviceInfo) (h : trusted info.id.id = false) :
    Moves trusted (.gate info) .checkTrust (.pairing info {})
  | remoteBegin (info : DeviceInfo) (st : PairingState) :
    Moves trusted (.pairing info st) (.recv .pairBegin) (Session.afterSelect info st)
  | remoteConfirm (info : DeviceInfo) (st : PairingState) :
    Moves trusted (.pairing info st) (.recv .pairConfirm) (Session.afterSelect info st.confirmRemote)
  | localConfirm (info : DeviceInfo) (st : PairingState) (epoch : BitVec 64) :
    Moves trusted (.pairing info st) (.cmd .confirm epoch) (Session.afterSelect info st.confirmLocal)
  | otherCmd (info : DeviceInfo) (st : PairingState) (cmd : SessionCmd) (epoch : BitVec 64)
    (h : cmd ≠ .confirm ∧ cmd ≠ .cancel ∧ cmd ≠ .disconnect) :
    Moves trusted (.pairing info st) (.cmd cmd epoch) (Session.afterSelect info st)
  | pairingFailed (info : DeviceInfo) (st : PairingState) (event : SessionEvent) (err : SessionError) :
    Moves trusted (.pairing info st) event (.ended (some err))
  | stored (info : DeviceInfo) : Moves trusted (.paired info) (.store none) (.authenticated info)
  | storeFailed (info : DeviceInfo) (err : Error) :
    Moves trusted (.paired info) (.store (some err)) (.ended (some (.failed err)))
  | wired (info : DeviceInfo) (epoch : BitVec 64) (desktop : Rect) (err : Option Error) :
    Moves trusted (.authenticated info) (.wire epoch desktop err) (.running info)
  | wireFailed (info : DeviceInfo) (epoch : BitVec 64) (desktop : Rect) (err : Error) :
    Moves trusted (.authenticated info) (.wire epoch desktop (some err)) (.ended (some (.failed err)))
  | running (info : DeviceInfo) (event : SessionEvent) (h : event.ofMainLoop = true) :
    Moves trusted (.running info) event (.running info)
  | leave (info : DeviceInfo) (event : SessionEvent) (h : event.ofMainLoop = true) (result : Option SessionError) :
    Moves trusted (.running info) event (.closing info result)
  | teardown (info : DeviceInfo) (result : Option SessionError) :
    Moves trusted (.closing info result) .teardown (.ended result)
  | thread (p : Phase) (event : SessionEvent) (h : event.ofThread = true) : Moves trusted p event p

namespace Phase

/-- The main loop has been entered. -/
def started : Phase → Bool
  | .running _ | .closing _ _ | .ended _ => true
  | _ => false

theorem started_of_moves {trusted : String → Bool} {p p' : Phase} {event : SessionEvent}
    (h : p.Moves trusted event p') (hp : p.started = true) : p'.started = true := by
  cases h with
  | thread p event hthread => exact hp
  | running | leave | teardown => rfl
  | _ => cases hp

theorem finished_of_moves {trusted : String → Bool} {p p' : Phase} {event : SessionEvent}
    (h : p.Moves trusted event p') (hp : p.finished = true) : p'.finished = true := by
  cases h with
  | thread p event hthread => exact hp
  | _ => cases hp

theorem unfinished_of_moves {trusted : String → Bool} {p p' : Phase} {event : SessionEvent}
    (h : p.Moves trusted event p') (hp' : p'.finished = false) : p.finished = false := by
  by_contra hp
  rw [Bool.not_eq_false] at hp
  cases hp'.symm.trans (finished_of_moves h hp)

theorem start_of_moves {trusted : String → Bool} {p p' : Phase} {event : SessionEvent}
    (h : p.Moves trusted event p') (hp' : p' = .start) : p = .start ∧ event.ofThread = true := by
  cases h with
  | thread p event hthread => exact ⟨hp', hthread⟩
  | remoteBegin info st | remoteConfirm info st | localConfirm info st epoch | otherCmd info st cmd epoch hcmd =>
    unfold Session.afterSelect at hp'
    split_ifs at hp'
  | _ => cases hp'

/-- The trust store has not been asked. -/
def early : Phase → Bool
  | .start | .hello | .greeted _ | .gate _ => true
  | _ => false

theorem early_of_moves {trusted : String → Bool} {p p' : Phase} {event : SessionEvent}
    (h : p.Moves trusted event p') (hp' : p'.early = true) : p.early = true ∧ event ≠ .checkTrust := by
  cases h with
  | sayHello | greeted | setSlot => exact ⟨rfl, nofun⟩
  | thread p event hthread =>
    refine ⟨hp', ?_⟩
    rintro rfl
    cases hthread
  | remoteBegin info st | remoteConfirm info st | localConfirm info st epoch | otherCmd info st cmd epoch hcmd =>
    unfold Session.afterSelect at hp'
    split_ifs at hp' <;> cases hp'
  | _ => cases hp'

end Phase

namespace Session

variable {x : Crates} {ar : Arith} {core : AppCore x} {s : Session} {event : SessionEvent} {p : AppCore x × Session}

/-- The branches of `step`. -/
inductive Steps (ar : Arith) (core : AppCore x) (s : Session) : SessionEvent → AppCore x × Session → Prop
  | sayHello (hs : s.phase = .start) : Steps ar core s .sayHello (core, s.sayHello core)
  | startClosed (err : Error) (hs : s.phase = .start) : Steps ar core s (.closed err) (core, s.fail (.failed err))
  | recvHello (msg : ControlMsg) (hs : s.phase = .hello) : Steps ar core s (.recv msg) (core, s.recvHello msg)
  | helloClosed (err : Error) (hs : s.phase = .hello) : Steps ar core s (.closed err) (core, s.fail (.failed err))
  | setSlot (info : DeviceInfo) (hs : s.phase = .greeted info) : Steps ar core s .setSlot (core, s.setSlot info)
  | checkTrust (info : DeviceInfo) (hs : s.phase = .gate info) :
    Steps ar core s .checkTrust (Session.checkTrust core s info)
  | pairingRecv (info : DeviceInfo) (st : PairingState) (msg : ControlMsg) (hs : s.phase = .pairing info st) :
    Steps ar core s (.recv msg) (Session.pairingRecv core s info st msg)
  | pairingClosed (info : DeviceInfo) (st : PairingState) (err : Error) (hs : s.phase = .pairing info st) :
    Steps ar core s (.closed err) (core, s.fail .closedDuringPairing)
  | pairingCmd (info : DeviceInfo) (st : PairingState) (cmd : SessionCmd) (epoch : BitVec 64)
    (hs : s.phase = .pairing info st) : Steps ar core s (.cmd cmd epoch) (Session.pairingCmd core s info st cmd)
  | pairingCmdClosed (info : DeviceInfo) (st : PairingState) (hs : s.phase = .pairing info st) :
    Steps ar core s .cmdClosed (pairingCancel core s info)
  | store (info : DeviceInfo) (err : Option Error) (hs : s.phase = .paired info) :
    Steps ar core s (.store err) (Session.store core s info err)
  | wire (info : DeviceInfo) (epoch : BitVec 64) (desktop : Rect) (err : Option Error)
    (hs : s.phase = .authenticated info) :
    Steps ar core s (.wire epoch desktop err) (Session.wire core s info epoch desktop err)
  | runningRecv (info : DeviceInfo) (msg : ControlMsg) (hs : s.phase = .running info) :
    Steps ar core s (.recv msg) (Session.runningRecv core s info msg)
  | runningClosed (info : DeviceInfo) (err : Error) (hs : s.phase = .running info) :
    Steps ar core s (.closed err) (core, { s with phase := .closing info none })
  | runningCmd (info : DeviceInfo) (cmd : SessionCmd) (epoch : BitVec 64) (hs : s.phase = .running info) :
    Steps ar core s (.cmd cmd epoch) (Session.runningCmd core s info cmd epoch)
  | runningCmdClosed (info : DeviceInfo) (hs : s.phase = .running info) :
    Steps ar core s .cmdClosed (core, { s with phase := .closing info none })
  | tick (info : DeviceInfo) (hs : s.phase = .running info) : Steps ar core s .tick (core, s.tick info)
  | teardown (info : DeviceInfo) (result : Option SessionError) (hs : s.phase = .closing info result) :
    Steps ar core s .teardown (Session.teardown core s info result)
  | writerDied (hslot : s.slot.isSome) : Steps ar core s .writerDied (core, { s with writer := false, out := [] })
  | host (h : HostThread) (edge : ScreenEdge) (captured : Option CapturedEvent) (edgeNow : ScreenEdge)
    (hhost : s.host = some h) (hlive : h.stop = false ∧ h.exited = false) :
    Steps ar core s (.host edge captured edgeNow) (hostStep ar core s h edge captured edgeNow)
  | hostExit (h : HostThread) (hhost : s.host = some h) (hstop : h.stop = true ∧ h.exited = false) :
    Steps ar core s .hostExit
      (core, { s with host := some { h with input := h.input.emit (.suppress false), exited := true } })
  | sender (i : ℕ) (ev : SenderEvent) (t t' : MirrorSender) (ht : s.senders[i]? = some t)
    (hstep : t.step x ev = some t') : Steps ar core s (.sender i ev) (core, { s with senders := s.senders.set i t' })
  | clipboard (text : String) (hclip : s.clip = true) :
    Steps ar core s (.clipboard text) (core, s.send (.clipboard (.text text)))
  | clipExit (result : Option SessionError) (hs : s.phase = .ended result) :
    Steps ar core s .clipExit (core, { s with clip := false })

/-- Every step is one of the branches. -/
theorem steps_of_step (h : s.step ar core event = some p) : Steps ar core s event p := by
  unfold step at h
  split at h
  case h_1 hs => exact Option.some.inj h ▸ .sayHello hs
  case h_2 err hs => exact Option.some.inj h ▸ .startClosed err hs
  case h_3 msg hs => exact Option.some.inj h ▸ .recvHello msg hs
  case h_4 err hs => exact Option.some.inj h ▸ .helloClosed err hs
  case h_5 info hs => exact Option.some.inj h ▸ .setSlot info hs
  case h_6 info hs => exact Option.some.inj h ▸ .checkTrust info hs
  case h_7 msg info st hs => exact Option.some.inj h ▸ .pairingRecv info st msg hs
  case h_8 err info st hs => exact Option.some.inj h ▸ .pairingClosed info st err hs
  case h_9 cmd epoch info st hs => exact Option.some.inj h ▸ .pairingCmd info st cmd epoch hs
  case h_10 info st hs => exact Option.some.inj h ▸ .pairingCmdClosed info st hs
  case h_11 err info hs => exact Option.some.inj h ▸ .store info err hs
  case h_12 epoch desktop err info hs => exact Option.some.inj h ▸ .wire info epoch desktop err hs
  case h_13 msg info hs => exact Option.some.inj h ▸ .runningRecv info msg hs
  case h_14 err info hs => exact Option.some.inj h ▸ .runningClosed info err hs
  case h_15 cmd epoch info hs => exact Option.some.inj h ▸ .runningCmd info cmd epoch hs
  case h_16 info hs => exact Option.some.inj h ▸ .runningCmdClosed info hs
  case h_17 info hs => exact Option.some.inj h ▸ .tick info hs
  case h_18 info result hs => exact Option.some.inj h ▸ .teardown info result hs
  case h_19 =>
    split_ifs at h with hslot
    exact Option.some.inj h ▸ .writerDied hslot
  case h_20 edge captured edgeNow =>
    split at h
    case h_1 t ht =>
      split_ifs at h with hbad
      simp only [not_or, Bool.not_eq_true] at hbad
      exact Option.some.inj h ▸ .host t edge captured edgeNow ht ⟨hbad.1, hbad.2.1⟩
    case h_2 => cases h
  case h_21 =>
    split at h
    case h_1 t ht =>
      split_ifs at h with hbad
      simp only [not_or, Bool.not_eq_true, Bool.not_eq_true', Bool.not_eq_false] at hbad
      exact Option.some.inj h ▸ .hostExit t ht hbad
    case h_2 => cases h
  case h_22 i ev =>
    split at h
    case h_1 t ht =>
      obtain ⟨t', hstep, heq⟩ := Option.map_eq_some_iff.mp h
      exact heq ▸ .sender i ev t t' ht hstep
    case h_2 => cases h
  case h_23 text =>
    split_ifs at h with hclip
    exact Option.some.inj h ▸ .clipboard text hclip
  case h_24 result hs => exact Option.some.inj h ▸ .clipExit result hs
  case h_25 => cases h

/-! ### What does not change -/

/-- What only the gate changes: everything but this is what most branches may touch. -/
structure Frame (core : AppCore x) (s : Session) (core' : AppCore x) (s' : Session) : Prop where
  identity : core'.identity = core.identity
  info : core'.deviceInfo = core.deviceInfo
  role : s'.role = s.role
  key : s'.key = s.key
  cert : s'.cert = s.cert
  trust : core'.trust = core.trust
  slot : s'.slot = s.slot

theorem Frame.refl (core : AppCore x) (s : Session) : Frame core s core s := ⟨rfl, rfl, rfl, rfl, rfl, rfl, rfl⟩

theorem Frame.trans {core' core'' : AppCore x} {s' s'' : Session} (h : Frame core s core' s')
    (h' : Frame core' s' core'' s'') : Frame core s core'' s'' :=
  ⟨h'.identity.trans h.identity, h'.info.trans h.info, h'.role.trans h.role, h'.key.trans h.key,
    h'.cert.trans h.cert, h'.trust.trans h.trust, h'.slot.trans h.slot⟩

theorem checkTrust_frame (core : AppCore x) (s : Session) (info : DeviceInfo) :
    Frame core s (checkTrust core s info).1 (checkTrust core s info).2 := by
  unfold checkTrust
  split_ifs <;> constructor <;> rfl

theorem pairingRecv_frame (core : AppCore x) (s : Session) (info : DeviceInfo) (st : PairingState)
    (msg : ControlMsg) : Frame core s (pairingRecv core s info st msg).1 (pairingRecv core s info st msg).2 := by
  cases msg <;> constructor <;> rfl

theorem pairingCmd_frame (core : AppCore x) (s : Session) (info : DeviceInfo) (st : PairingState)
    (cmd : SessionCmd) : Frame core s (pairingCmd core s info st cmd).1 (pairingCmd core s info st cmd).2 := by
  cases cmd <;> constructor <;> rfl

theorem wire_frame (core : AppCore x) (s : Session) (info : DeviceInfo) (epoch : BitVec 64) (desktop : Rect)
    (err : Option Error) :
    Frame core s (wire core s info epoch desktop err).1 (wire core s info epoch desktop err).2 := by
  unfold wire
  dsimp only
  split
  · constructor <;> rfl
  · split <;> constructor <;> rfl

theorem mirrorInbound_frame (core : AppCore x) (s : Session) (info : DeviceInfo) (msg : ControlMsg) :
    Frame core s (mirrorInbound core s info msg).1 (mirrorInbound core s info msg).2 := by
  have htake : Frame core s core s.takeReceiver := by
    unfold takeReceiver
    split
    · constructor <;> rfl
    · exact .refl core s
  cases msg with
  | startMirror epoch => exact htake.trans (by constructor <;> rfl)
  | stopMirror => exact htake.trans (by constructor <;> rfl)
  | _ => exact .refl core s

theorem handleInbound_frame (core : AppCore x) (s : Session) (info : DeviceInfo) (msg : ControlMsg) :
    Frame core s (handleInbound core s info msg).1 (handleInbound core s info msg).2.1 := by
  unfold handleInbound
  split
  case h_1 | h_2 | h_3 => split <;> constructor <;> rfl
  case h_6 => split_ifs <;> constructor <;> rfl
  all_goals constructor <;> rfl

theorem runningRecv_frame (core : AppCore x) (s : Session) (info : DeviceInfo) (msg : ControlMsg) :
    Frame core s (runningRecv core s info msg).1 (runningRecv core s info msg).2 := by
  have h := (mirrorInbound_frame core s info msg).trans
    (handleInbound_frame (mirrorInbound core s info msg).1 (mirrorInbound core s info msg).2 info msg)
  unfold runningRecv
  dsimp only
  split
  · exact h
  · exact h.trans (by constructor <;> rfl)

theorem runningCmd_frame (core : AppCore x) (s : Session) (info : DeviceInfo) (cmd : SessionCmd)
    (epoch : BitVec 64) :
    Frame core s (runningCmd core s info cmd epoch).1 (runningCmd core s info cmd epoch).2 := by
  cases cmd with
  | startMirror =>
    unfold runningCmd
    cases s.mirrorTx with
    | some i => exact .refl core s
    | none => cases s.writer <;> constructor <;> rfl
  | stopMirror =>
    unfold runningCmd
    cases s.mirrorTx <;> constructor <;> rfl
  | _ => constructor <;> rfl

theorem tick_frame (core : AppCore x) (s : Session) (info : DeviceInfo) : Frame core s core (s.tick info) := by
  unfold tick
  dsimp only
  split_ifs <;> constructor <;> rfl

theorem teardown_frame (core : AppCore x) (s : Session) (info : DeviceInfo) (result : Option SessionError) :
    Frame core s (teardown core s info result).1 (teardown core s info result).2 := by
  constructor <;> rfl

theorem foldl_forwardOne (os : List HostOut) (core : AppCore x) (s : Session) :
    ∃ events out, os.foldl forwardOne (core, s) = ({ core with events := events }, { s with out := out }) := by
  induction os generalizing core s with
  | nil => exact ⟨core.events, s.out, rfl⟩
  | cons o os ih =>
    rw [List.foldl_cons]
    cases o with
    | ctrl msg =>
      obtain ⟨events, out, heq⟩ := ih core (s.send msg)
      exact ⟨events, out, heq⟩
    | event event =>
      obtain ⟨events, out, heq⟩ := ih (core.emit event) s
      exact ⟨events, out, heq⟩
    | udp event packet => exact ih core s
    | suppress on => exact ih core s
    | park px py => exact ih core s

theorem hostStep_eq (ar : Arith) (core : AppCore x) (s : Session) (h : HostThread) (edge : ScreenEdge)
    (captured : Option CapturedEvent) (edgeNow : ScreenEdge) :
    ∃ events out, hostStep ar core s h edge captured edgeNow = ({ core with events := events }, { s with
      host := some { h with input := hostIter x ar h.desktop h.input ⟨edge, false, captured, edgeNow⟩ }
      out := out }) := by
  unfold hostStep
  generalize hostIter x ar h.desktop h.input ⟨edge, false, captured, edgeNow⟩ = input
  obtain ⟨events, out, heq⟩ := foldl_forwardOne (input.out.drop h.input.out.length) core
    { s with host := some { h with input := input } }
  exact ⟨events, out, heq⟩

theorem hostStep_frame (core : AppCore x) (s : Session) (h : HostThread) (edge : ScreenEdge)
    (captured : Option CapturedEvent) (edgeNow : ScreenEdge) :
    Frame core s (hostStep ar core s h edge captured edgeNow).1 (hostStep ar core s h edge captured edgeNow).2 := by
  obtain ⟨events, out, heq⟩ := hostStep_eq ar core s h edge captured edgeNow
  rw [heq]
  constructor <;> rfl

theorem recvHello_frame (core : AppCore x) (s : Session) (msg : ControlMsg) :
    Frame core s core (s.recvHello msg) := by
  unfold recvHello
  split
  · split_ifs <;> constructor <;> rfl
  · constructor <;> rfl

/-- All events but two leave the trust store and the slot alone. -/
theorem step_frame (h : s.step ar core event = some p) (hslot : event ≠ .setSlot)
    (hstore : ∀ err, event ≠ .store err) : Frame core s p.1 p.2 := by
  cases steps_of_step h with
  | setSlot info hs => exact absurd rfl hslot
  | store info err hs => exact absurd rfl (hstore err)
  | recvHello msg hs => exact recvHello_frame core s msg
  | checkTrust info hs => exact checkTrust_frame core s info
  | pairingRecv info st msg hs => exact pairingRecv_frame core s info st msg
  | pairingCmd info st cmd epoch hs => exact pairingCmd_frame core s info st cmd
  | wire info epoch desktop err hs => exact wire_frame core s info epoch desktop err
  | runningRecv info msg hs => exact runningRecv_frame core s info msg
  | runningCmd info cmd epoch hs => exact runningCmd_frame core s info cmd epoch
  | tick info hs => exact tick_frame core s info
  | teardown info result hs => exact teardown_frame core s info result
  | host t edge captured edgeNow hhost hlive => exact hostStep_frame core s t edge captured edgeNow
  | _ => constructor <;> rfl

theorem step_store {err : Option Error} (h : s.step ar core (.store err) = some p) :
    ∃ info, s.phase = .paired info ∧ p.1.trust = core.trust.trust info.id.id info.name ∧
      p.1.identity = core.identity ∧ p.1.deviceInfo = core.deviceInfo ∧ p.2.role = s.role ∧ p.2.key = s.key ∧
      p.2.cert = s.cert ∧ p.2.slot = s.slot := by
  cases steps_of_step h with
  | store info err hs => cases err <;> exact ⟨info, hs, rfl, rfl, rfl, rfl, rfl, rfl, rfl⟩

theorem step_setSlot (h : s.step ar core .setSlot = some p) :
    ∃ info, s.phase = .greeted info ∧ p = (core, s.setSlot info) := by
  cases steps_of_step h with
  | setSlot info hs => exact ⟨info, hs, rfl⟩

theorem step_const (h : s.step ar core event = some p) :
    p.2.role = s.role ∧ p.2.key = s.key ∧ p.2.cert = s.cert ∧ p.1.identity = core.identity ∧
      p.1.deviceInfo = core.deviceInfo := by
  by_cases hslot : event = .setSlot
  · subst hslot
    obtain ⟨info, -, rfl⟩ := step_setSlot h
    exact ⟨rfl, rfl, rfl, rfl, rfl⟩
  · by_cases hstore : ∃ err, event = .store err
    · obtain ⟨err, rfl⟩ := hstore
      obtain ⟨info, -, -, hidentity, hinfo, hrole, hkey, hcert, -⟩ := step_store h
      exact ⟨hrole, hkey, hcert, hidentity, hinfo⟩
    · have hframe := step_frame h hslot fun err heq => hstore ⟨err, heq⟩
      exact ⟨hframe.role, hframe.key, hframe.cert, hframe.identity, hframe.info⟩

/-! ### Phases -/

@[simp] theorem phase_takeReceiver (s : Session) : s.takeReceiver.phase = s.phase := by
  unfold takeReceiver
  split <;> rfl

@[simp] theorem phase_mirrorInbound (core : AppCore x) (s : Session) (info : DeviceInfo) (msg : ControlMsg) :
    (mirrorInbound core s info msg).2.phase = s.phase := by
  cases msg with
  | startMirror epoch => exact phase_takeReceiver s
  | stopMirror => exact phase_takeReceiver s
  | _ => rfl

@[simp] theorem phase_handleInbound (core : AppCore x) (s : Session) (info : DeviceInfo) (msg : ControlMsg) :
    (handleInbound core s info msg).2.1.phase = s.phase := by
  unfold handleInbound
  split
  case h_1 | h_2 | h_3 => split <;> rfl
  case h_6 => split_ifs <;> rfl
  all_goals rfl

theorem phase_runningRecv (core : AppCore x) (s : Session) (info : DeviceInfo) (msg : ControlMsg) :
    (runningRecv core s info msg).2.phase = s.phase ∨
      ∃ result, (runningRecv core s info msg).2.phase = .closing info result := by
  unfold runningRecv
  dsimp only
  have hphase := phase_handleInbound (mirrorInbound core s info msg).1 (mirrorInbound core s info msg).2 info msg
  rw [phase_mirrorInbound] at hphase
  split
  · exact Or.inl hphase
  · exact Or.inr ⟨_, rfl⟩

theorem phase_runningCmd (core : AppCore x) (s : Session) (info : DeviceInfo) (cmd : SessionCmd)
    (epoch : BitVec 64) :
    (runningCmd core s info cmd epoch).2.phase = s.phase ∨
      (runningCmd core s info cmd epoch).2.phase = .closing info none := by
  cases cmd with
  | startMirror =>
    unfold runningCmd
    cases s.mirrorTx with
    | some i => exact Or.inl rfl
    | none =>
      cases hwriter : s.writer with
      | true => exact Or.inl rfl
      | false => exact Or.inr rfl
  | stopMirror =>
    unfold runningCmd
    cases s.mirrorTx <;> exact Or.inl rfl
  | disconnect => exact Or.inr rfl
  | _ => exact Or.inl rfl

/-- A step follows `Phase.Moves`. -/
theorem step_moves (h : s.step ar core event = some p) :
    s.phase.Moves core.trust.isTrusted event p.2.phase := by
  cases steps_of_step h with
  | sayHello hs => exact hs ▸ .sayHello
  | startClosed err hs => exact hs ▸ .startFailed err
  | recvHello msg hs =>
    rw [hs]
    unfold recvHello
    split
    · split_ifs with hversion
      · exact .helloRefused _ _
      · rw [not_not.mp hversion]
        exact .greeted _
    · exact .helloRefused _ _
  | helloClosed err hs => exact hs ▸ .helloFailed err
  | setSlot info hs => exact hs ▸ .setSlot info
  | checkTrust info hs =>
    rw [hs]
    unfold checkTrust
    split_ifs with htrusted
    · exact .trusted info htrusted
    · exact .untrusted info (Bool.not_eq_true _ ▸ htrusted)
  | pairingRecv info st msg hs =>
    rw [hs]
    cases msg with
    | pairBegin => exact .remoteBegin info st
    | pairConfirm => exact .remoteConfirm info st
    | _ => exact .pairingFailed info st _ _
  | pairingClosed info st err hs => exact hs ▸ .pairingFailed info st _ _
  | pairingCmd info st cmd epoch hs =>
    rw [hs]
    cases cmd with
    | confirm => exact .localConfirm info st epoch
    | cancel => exact .pairingFailed info st _ _
    | disconnect => exact .pairingFailed info st _ _
    | _ => exact .otherCmd info st _ epoch (by simp)
  | pairingCmdClosed info st hs => exact hs ▸ .pairingFailed info st _ _
  | store info err hs =>
    rw [hs]
    cases err with
    | none => exact .stored info
    | some err => exact .storeFailed info err
  | wire info epoch desktop err hs =>
    rw [hs]
    unfold wire
    dsimp only
    split
    · exact .wired info epoch desktop err
    · split
      · exact .wireFailed info epoch desktop _
      · exact .wired info epoch desktop none
  | runningRecv info msg hs =>
    rw [hs]
    rcases phase_runningRecv core s info msg with hp | ⟨result, hp⟩
    · rw [hp, hs]
      exact .running info _ rfl
    · rw [hp]
      exact .leave info _ rfl result
  | runningClosed info err hs => exact hs ▸ .leave info _ rfl none
  | runningCmd info cmd epoch hs =>
    rw [hs]
    rcases phase_runningCmd core s info cmd epoch with hp | hp
    · rw [hp, hs]
      exact .running info _ rfl
    · rw [hp]
      exact .leave info _ rfl none
  | runningCmdClosed info hs => exact hs ▸ .leave info _ rfl none
  | tick info hs =>
    rw [hs]
    unfold tick
    dsimp only
    split_ifs
    · exact .leave info _ rfl none
    · rw [show s.phase = .running info from hs]
      exact .running info _ rfl
  | teardown info result hs => exact hs ▸ .teardown info result
  | writerDied hslot => exact .thread s.phase _ rfl
  | host t edge captured edgeNow hhost hlive =>
    obtain ⟨events, out, heq⟩ := hostStep_eq ar core s t edge captured edgeNow
    rw [heq]
    exact .thread s.phase _ rfl
  | hostExit t hhost hstop => exact .thread s.phase _ rfl
  | sender i ev t t' ht hstep => exact .thread s.phase _ rfl
  | clipboard text hclip => exact .thread s.phase _ rfl
  | clipExit result hs => exact .thread s.phase _ rfl

/-! ### The inbound channel -/

theorem inboundRt_checkTrust (core : AppCore x) (s : Session) (info : DeviceInfo) :
    (checkTrust core s info).1.inboundRt = core.inboundRt := by
  unfold checkTrust
  split_ifs <;> rfl

theorem inboundRt_mirrorInbound (core : AppCore x) (s : Session) (info : DeviceInfo) (msg : ControlMsg) :
    (mirrorInbound core s info msg).1.inboundRt = core.inboundRt := by
  cases msg <;> rfl

theorem inboundRt_handleInbound (core : AppCore x) (s : Session) (info : DeviceInfo) (msg : ControlMsg)
    (hs : s.phase = .running info) :
    (handleInbound core s info msg).1.inboundRt = match s.opens (.recv msg) with
      | some epoch => some (.new s.key epoch false)
      | none => core.inboundRt := by
  cases msg with
  | realtimeOpen port epoch =>
    simp only [handleInbound, opens, hs]
    cases s.role <;> rfl
  | setMode mode =>
    simp only [handleInbound, opens]
    cases s.role <;> rfl
  | edgeEnter px py =>
    simp only [handleInbound, opens]
    cases s.role <;> rfl
  | pong nonce =>
    simp only [handleInbound, opens]
    split_ifs <;> rfl
  | clipboard data =>
    cases data
    rfl
  | _ => rfl

theorem inboundRt_runningRecv (core : AppCore x) (s : Session) (info : DeviceInfo) (msg : ControlMsg)
    (hs : s.phase = .running info) :
    (runningRecv core s info msg).1.inboundRt = match s.opens (.recv msg) with
      | some epoch => some (.new s.key epoch false)
      | none => core.inboundRt := by
  have hframe := mirrorInbound_frame core s info msg
  have hphase := (phase_mirrorInbound core s info msg).trans hs
  have hopens : (mirrorInbound core s info msg).2.opens (.recv msg) = s.opens (.recv msg) := by
    simp only [opens, hphase, hs, hframe.role]
  have h := inboundRt_handleInbound (mirrorInbound core s info msg).1 (mirrorInbound core s info msg).2 info msg hphase
  rwa [hopens, hframe.key, inboundRt_mirrorInbound] at h

theorem inboundRt_runningCmd (core : AppCore x) (s : Session) (info : DeviceInfo) (cmd : SessionCmd)
    (epoch : BitVec 64) : (runningCmd core s info cmd epoch).1.inboundRt = core.inboundRt := by
  cases cmd with
  | startMirror =>
    unfold runningCmd
    cases s.mirrorTx with
    | some i => rfl
    | none => cases s.writer <;> rfl
  | stopMirror =>
    unfold runningCmd
    cases s.mirrorTx <;> rfl
  | _ => rfl

/-- A `RealtimeOpen` handled by a controlled session opens the inbound channel, the teardown of a controlled session
clears it, and nothing else touches it. -/
theorem step_inboundRt (h : s.step ar core event = some p) :
    p.1.inboundRt = match s.opens event with
      | some epoch => some (.new s.key epoch false)
      | none => if s.clears event then none else core.inboundRt := by
  cases steps_of_step h with
  | recvHello msg hs =>
    have hopens : s.opens (.recv msg) = none := by
      cases msg <;> simp [opens, hs]
    rw [hopens]
    rfl
  | pairingRecv info st msg hs =>
    have hopens : s.opens (.recv msg) = none := by
      cases msg <;> simp [opens, hs]
    rw [hopens]
    cases msg <;> rfl
  | runningRecv info msg hs =>
    rw [inboundRt_runningRecv core s info msg hs]
    cases s.opens (.recv msg) <;> rfl
  | teardown info result hs =>
    cases hrole : s.role <;> simp [opens, clears, hs, hrole, teardown, clearShared, AppCore.emit]
  | checkTrust info hs => exact inboundRt_checkTrust core s info
  | pairingCmd info st cmd epoch hs => cases cmd <;> rfl
  | store info err hs => cases err <;> rfl
  | wire info epoch desktop err hs =>
    unfold wire
    dsimp only
    split
    · rfl
    · split <;> rfl
  | runningCmd info cmd epoch hs => exact inboundRt_runningCmd core s info cmd epoch
  | host t edge captured edgeNow hhost hlive =>
    obtain ⟨events, out, heq⟩ := hostStep_eq ar core s t edge captured edgeNow
    rw [heq]
    rfl
  | _ => rfl

/-! ### The injector -/

/-- The call of the injector the event makes. -/
def enters (s : Session) (event : SessionEvent) : Option InjectorCall :=
  match event, s.phase, s.role with
  | .recv (.edgeEnter px py), .running _, .controlled => some (.setCursorNorm px py)
  | _, _, _ => none

theorem injector_checkTrust (core : AppCore x) (s : Session) (info : DeviceInfo) :
    (checkTrust core s info).1.injector = core.injector := by
  unfold checkTrust
  split_ifs <;> rfl

theorem injector_mirrorInbound (core : AppCore x) (s : Session) (info : DeviceInfo) (msg : ControlMsg) :
    (mirrorInbound core s info msg).1.injector = core.injector := by
  cases msg <;> rfl

theorem injector_handleInbound (core : AppCore x) (s : Session) (info : DeviceInfo) (msg : ControlMsg)
    (hs : s.phase = .running info) :
    (handleInbound core s info msg).1.injector = core.injector ++ (s.enters (.recv msg)).toList := by
  cases msg with
  | edgeEnter px py =>
    simp only [handleInbound, enters, hs]
    cases s.role
    · exact (List.append_nil _).symm
    · rfl
  | realtimeOpen port epoch =>
    simp only [handleInbound, enters]
    cases s.role <;> exact (List.append_nil _).symm
  | setMode mode =>
    simp only [handleInbound, enters]
    cases s.role <;> exact (List.append_nil _).symm
  | pong nonce =>
    simp only [handleInbound, enters]
    split_ifs <;> exact (List.append_nil _).symm
  | clipboard data =>
    cases data
    exact (List.append_nil _).symm
  | _ => exact (List.append_nil _).symm

theorem injector_runningRecv (core : AppCore x) (s : Session) (info : DeviceInfo) (msg : ControlMsg)
    (hs : s.phase = .running info) :
    (runningRecv core s info msg).1.injector = core.injector ++ (s.enters (.recv msg)).toList := by
  have hphase := (phase_mirrorInbound core s info msg).trans hs
  have henters : (mirrorInbound core s info msg).2.enters (.recv msg) = s.enters (.recv msg) := by
    simp only [enters, hphase, hs, (mirrorInbound_frame core s info msg).role]
  have h := injector_handleInbound (mirrorInbound core s info msg).1 (mirrorInbound core s info msg).2 info msg hphase
  rwa [henters, injector_mirrorInbound] at h

theorem injector_runningCmd (core : AppCore x) (s : Session) (info : DeviceInfo) (cmd : SessionCmd)
    (epoch : BitVec 64) : (runningCmd core s info cmd epoch).1.injector = core.injector := by
  cases cmd with
  | startMirror =>
    unfold runningCmd
    cases s.mirrorTx with
    | some i => rfl
    | none => cases s.writer <;> rfl
  | stopMirror =>
    unfold runningCmd
    cases s.mirrorTx <;> rfl
  | _ => rfl

/-- A session calls the injector only when it is controlled and handles an `EdgeEnter`. -/
theorem step_injector (h : s.step ar core event = some p) :
    p.1.injector = core.injector ++ (s.enters event).toList := by
  cases steps_of_step h with
  | runningRecv info msg hs => exact injector_runningRecv core s info msg hs
  | recvHello msg hs =>
    have hnone : s.enters (.recv msg) = none := by
      cases msg <;> simp [enters, hs]
    rw [hnone]
    exact (List.append_nil _).symm
  | pairingRecv info st msg hs =>
    have hnone : s.enters (.recv msg) = none := by
      cases msg <;> simp [enters, hs]
    rw [hnone]
    cases msg <;> exact (List.append_nil _).symm
  | checkTrust info hs => exact (injector_checkTrust core s info).trans (List.append_nil _).symm
  | pairingCmd info st cmd epoch hs => cases cmd <;> exact (List.append_nil _).symm
  | store info err hs => cases err <;> exact (List.append_nil _).symm
  | wire info epoch desktop err hs =>
    unfold wire
    dsimp only
    split
    · exact (List.append_nil _).symm
    · split <;> exact (List.append_nil _).symm
  | runningCmd info cmd epoch hs => exact (injector_runningCmd core s info cmd epoch).trans (List.append_nil _).symm
  | host t edge captured edgeNow hhost hlive =>
    obtain ⟨events, out, heq⟩ := hostStep_eq ar core s t edge captured edgeNow
    rw [heq]
    exact (List.append_nil _).symm
  | _ => exact (List.append_nil _).symm

end Session

end ScreenLink
