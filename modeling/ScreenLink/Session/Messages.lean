import ScreenLink.Session.Threads

/-!
# The messages of a step

What a step hands to the writer task, for every state and event (`Session.messages`). A step adds these messages to the
queue as long as the writer is alive, and nothing else (`step_messages`); a writer that dies drops the queue.
-/

namespace ScreenLink

def HostOut.ctrl? : HostOut → Option ControlMsg
  | .ctrl msg => some msg
  | _ => none

namespace Session

variable {x : Crates} {ar : Arith} {core : AppCore x} {s : Session} {event : SessionEvent} {p : AppCore x × Session}

/-- The control messages of an iteration of the input loop. -/
def loopMessages (x : Crates) (ar : Arith) (h : HostThread) (tick : HostTick) : List ControlMsg :=
  ((hostIter x ar h.desktop h.input tick).out.drop h.input.out.length).filterMap HostOut.ctrl?

/-- The answers of `handle_inbound`. -/
def answers (role : Role) : ControlMsg → List ControlMsg
  | .setMode mode => match role with
    | .controlled => [.modeAck mode true ""]
    | .controller .. => []
  | .ping nonce => [.pong nonce]
  | _ => []

/-- What the session sends before the main loop. -/
def greets (core : AppCore x) (s : Session) (event : SessionEvent) : List ControlMsg :=
  match s.phase, event with
  | .start, .sayHello => [.hello PROTOCOL_VERSION core.deviceInfo]
  | .hello, .recv (.hello protocol _) =>
    if protocol = PROTOCOL_VERSION then []
    else [.reject ("protocol " ++ toString protocol.toNat ++ " != " ++ toString PROTOCOL_VERSION.toNat)]
  | .gate info, .checkTrust => if core.trust.isTrusted info.id.id then [] else [.pairBegin]
  | .pairing _ _, .cmd .confirm _ => [.pairConfirm]
  | .pairing _ _, .cmd .cancel _ | .pairing _ _, .cmd .disconnect _ | .pairing _ _, .cmdClosed =>
    [.pairCancel "user cancelled"]
  | .authenticated _, .wire epoch _ _ => match s.role with
    | .controlled => []
    | .controller .. => [.setMode .control, .realtimeOpen core.realtimePort epoch]
  | _, _ => []

/-- What the main loop sends. -/
def talks (s : Session) (event : SessionEvent) : List ControlMsg :=
  match s.phase, event with
  | .running _, .recv msg => answers s.role msg
  | .running _, .cmd .startMirror epoch => if s.mirrorTx = none ∧ s.writer = true then [.startMirror epoch] else []
  | .running _, .cmd .stopMirror _ => [.stopMirror]
  | .running _, .tick => [.ping (s.pingNonce + 1)]
  | _, _ => []

/-- What the threads send. -/
def threadMessages (x : Crates) (ar : Arith) (s : Session) : SessionEvent → List ControlMsg
  | .host edge captured edgeNow => s.host.toList.flatMap fun h => loopMessages x ar h ⟨edge, false, captured, edgeNow⟩
  | .clipboard text => [.clipboard (.text text)]
  | _ => []

/-- The messages that a step hands to the writer task. -/
def messages (ar : Arith) (core : AppCore x) (s : Session) (event : SessionEvent) : List ControlMsg :=
  s.greets core event ++ s.talks event ++ s.threadMessages x ar event

/-- The messages are added to the queue if the writer is alive. -/
def Adds (s : Session) (msgs : List ControlMsg) (s' : Session) : Prop :=
  s'.out = s.out ++ (if s.writer then msgs else []) ∧ s'.writer = s.writer

theorem adds_nil {s' : Session} (hout : s'.out = s.out) (hwriter : s'.writer = s.writer) : Adds s [] s' :=
  ⟨by simp [hout], hwriter⟩

theorem adds_send (s : Session) (msg : ControlMsg) : Adds s [msg] (s.send msg) := by
  refine ⟨?_, rfl⟩
  cases hwriter : s.writer <;> simp [send, hwriter]

theorem Adds.trans {s' s'' : Session} {msgs msgs' : List ControlMsg} (h : Adds s msgs s') (h' : Adds s' msgs' s'') :
    Adds s (msgs ++ msgs') s'' := by
  obtain ⟨hout, hwriter⟩ := h
  obtain ⟨hout', hwriter'⟩ := h'
  refine ⟨?_, hwriter'.trans hwriter⟩
  rw [hout', hout, hwriter]
  cases s.writer <;> simp

theorem Adds.congr {s' t : Session} {msgs : List ControlMsg} (h : Adds s msgs s') (hout : t.out = s'.out)
    (hwriter : t.writer = s'.writer) : Adds s msgs t :=
  ⟨hout.trans h.1, hwriter.trans h.2⟩

theorem adds_forward (os : List HostOut) (core : AppCore x) (s : Session) :
    Adds s (os.filterMap HostOut.ctrl?) (os.foldl forwardOne (core, s)).2 := by
  induction os generalizing core s with
  | nil => exact adds_nil rfl rfl
  | cons o os ih =>
    rw [List.foldl_cons]
    cases o with
    | ctrl msg => exact (adds_send s msg).trans (ih core (s.send msg))
    | event event => exact ih (core.emit event) s
    | udp | suppress | park => exact ih core s

theorem takeReceiver_queue (s : Session) : s.takeReceiver.out = s.out ∧ s.takeReceiver.writer = s.writer ∧
    s.takeReceiver.role = s.role ∧ s.takeReceiver.pingSent = s.pingSent ∧ s.takeReceiver.pingNonce = s.pingNonce := by
  unfold takeReceiver
  split <;> exact ⟨rfl, rfl, rfl, rfl, rfl⟩

theorem adds_mirrorInbound (core : AppCore x) (s : Session) (info : DeviceInfo) (msg : ControlMsg) :
    Adds s [] (mirrorInbound core s info msg).2 := by
  obtain ⟨hout, hwriter, -⟩ := s.takeReceiver_queue
  cases msg with
  | startMirror epoch => exact adds_nil hout hwriter
  | stopMirror => exact adds_nil hout hwriter
  | _ => exact adds_nil rfl rfl

theorem adds_handleInbound (core : AppCore x) (s : Session) (info : DeviceInfo) (msg : ControlMsg) :
    Adds s (answers s.role msg) (handleInbound core s info msg).2.1 := by
  unfold handleInbound
  split
  case h_1 mode =>
    unfold answers
    cases s.role with
    | controlled => exact adds_send s _
    | controller ip edge => exact adds_nil rfl rfl
  case h_2 | h_3 => split <;> exact adds_nil rfl rfl
  case h_5 nonce => exact adds_send s _
  case h_6 => split_ifs <;> exact adds_nil rfl rfl
  all_goals exact adds_nil rfl rfl

theorem adds_runningRecv (core : AppCore x) (s : Session) (info : DeviceInfo) (msg : ControlMsg) :
    Adds s (answers s.role msg) (runningRecv core s info msg).2 := by
  have hmirror := adds_mirrorInbound core s info msg
  have hinbound := adds_handleInbound (mirrorInbound core s info msg).1 (mirrorInbound core s info msg).2 info msg
  rw [(mirrorInbound_frame core s info msg).role] at hinbound
  have h := hmirror.trans hinbound
  unfold runningRecv
  dsimp only
  split
  · exact h
  · exact h.congr rfl rfl

theorem adds_runningCmd (core : AppCore x) {info : DeviceInfo} (hs : s.phase = .running info) (cmd : SessionCmd)
    (epoch : BitVec 64) : Adds s (s.talks (.cmd cmd epoch)) (runningCmd core s info cmd epoch).2 := by
  unfold talks
  rw [hs]
  cases cmd with
  | startMirror =>
    unfold runningCmd
    dsimp only
    cases hmirror : s.mirrorTx with
    | some i => exact adds_nil rfl rfl
    | none =>
      cases hwriter : s.writer with
      | false => exact adds_nil rfl hwriter.symm
      | true => exact (adds_send s (.startMirror epoch)).congr rfl rfl
  | stopMirror =>
    unfold runningCmd
    dsimp only
    cases s.mirrorTx with
    | some i => exact (adds_send s .stopMirror).congr rfl rfl
    | none => exact adds_send s .stopMirror
  | _ => exact adds_nil rfl rfl

theorem adds_tick (s : Session) (info : DeviceInfo) : Adds s [.ping (s.pingNonce + 1)] (s.tick info) := by
  unfold tick
  dsimp only
  cases hwriter : s.writer with
  | false => exact ⟨by simp [hwriter], hwriter.symm⟩
  | true => exact ⟨by simp [send, hwriter], hwriter.symm⟩

theorem adds_recvHello (core : AppCore x) (hs : s.phase = .hello) (msg : ControlMsg) :
    Adds s (s.greets core (.recv msg)) (s.recvHello msg) := by
  unfold greets
  rw [hs]
  cases msg with
  | hello protocol info =>
    unfold recvHello
    dsimp only
    by_cases hprotocol : protocol = PROTOCOL_VERSION
    · rw [if_pos hprotocol, if_neg (not_not_intro hprotocol)]
      exact adds_nil rfl rfl
    · rw [if_neg hprotocol, if_pos hprotocol]
      exact (adds_send s _).congr rfl rfl
  | _ => exact adds_nil rfl rfl

theorem adds_wire (core : AppCore x) {info : DeviceInfo} (hs : s.phase = .authenticated info) (epoch : BitVec 64)
    (desktop : Rect) (err : Option Error) :
    Adds s (s.greets core (.wire epoch desktop err)) (wire core s info epoch desktop err).2 := by
  unfold greets wire
  rw [hs]
  dsimp only
  cases s.role with
  | controlled => exact adds_nil rfl rfl
  | controller ip edge =>
    have hsent := (adds_send s (.setMode .control)).trans (adds_send (s.send (.setMode .control))
      (.realtimeOpen core.realtimePort epoch))
    cases err <;> exact hsent.congr rfl rfl

/-- The writer lives on, but for a teardown. -/
theorem step_messages (h : s.step ar core event = some p) (hdied : event ≠ .writerDied) :
    p.2.out = s.out ++ (if s.writer then s.messages ar core event else []) ∧
      (p.2.writer = s.writer ∨ event = .teardown ∧ p.2.writer = false) := by
  have hadds : ∀ msgs, Adds s msgs p.2 → s.messages ar core event = msgs →
      p.2.out = s.out ++ (if s.writer then s.messages ar core event else []) ∧
        (p.2.writer = s.writer ∨ event = .teardown ∧ p.2.writer = false) := by
    rintro msgs ⟨hout, hwriter⟩ rfl
    exact ⟨hout, Or.inl hwriter⟩
  cases steps_of_step h with
  | writerDied hslot => exact absurd rfl hdied
  | teardown info result hs =>
    have hnone : s.messages ar core .teardown = [] := by simp [messages, greets, talks, threadMessages, hs]
    refine ⟨?_, Or.inr ⟨rfl, rfl⟩⟩
    rw [hnone, ite_self, List.append_nil]
    rfl
  | sayHello hs => exact hadds _ ((adds_send s _).congr rfl rfl) (by simp [messages, greets, talks, threadMessages, hs])
  | recvHello msg hs => exact hadds _ (adds_recvHello core hs msg) (by simp [messages, talks, threadMessages, hs])
  | checkTrust info hs =>
    refine hadds (s.greets core .checkTrust) ?_ (by simp [messages, talks, threadMessages])
    unfold checkTrust greets
    rw [hs]
    dsimp only
    split_ifs
    · exact adds_nil rfl rfl
    · exact (adds_send s .pairBegin).congr rfl rfl
  | pairingRecv info st msg hs =>
    refine hadds [] ?_ (by simp [messages, greets, talks, threadMessages, hs])
    cases msg <;> exact adds_nil rfl rfl
  | pairingCmd info st cmd epoch hs =>
    refine hadds (s.greets core (.cmd cmd epoch)) ?_ (by simp [messages, talks, threadMessages, hs])
    unfold greets
    rw [hs]
    cases cmd with
    | confirm | cancel | disconnect => exact (adds_send s _).congr rfl rfl
    | _ => exact adds_nil rfl rfl
  | pairingCmdClosed info st hs =>
    exact hadds _ ((adds_send s _).congr rfl rfl) (by simp [messages, greets, talks, threadMessages, hs])
  | store info err hs =>
    refine hadds [] ?_ (by simp [messages, greets, talks, threadMessages, hs])
    cases err <;> exact adds_nil rfl rfl
  | wire info epoch desktop err hs =>
    exact hadds _ (adds_wire core hs epoch desktop err) (by simp [messages, talks, threadMessages])
  | runningRecv info msg hs =>
    exact hadds _ (adds_runningRecv core s info msg) (by simp [messages, greets, talks, threadMessages, hs])
  | runningCmd info cmd epoch hs =>
    exact hadds _ (adds_runningCmd core hs cmd epoch) (by simp [messages, greets, threadMessages, hs])
  | tick info hs => exact hadds _ (adds_tick s info) (by simp [messages, greets, talks, threadMessages, hs])
  | host t edge captured edgeNow hhost hlive =>
    refine hadds (loopMessages x ar t ⟨edge, false, captured, edgeNow⟩) ?_ ?_
    · unfold hostStep
      exact Adds.trans (adds_nil rfl rfl) (adds_forward _ core _)
    · simp [messages, greets, talks, threadMessages, hhost]
  | clipboard text hclip =>
    exact hadds _ (adds_send s _) (by simp [messages, greets, talks, threadMessages])
  | startClosed err hs | helloClosed err hs | setSlot info hs | pairingClosed info st err hs | runningClosed info err hs
  | runningCmdClosed info hs | clipExit result hs =>
    exact hadds [] (adds_nil rfl rfl) (by simp [messages, greets, talks, threadMessages, hs])
  | hostExit t hhost hstop => exact hadds [] (adds_nil rfl rfl) (by simp [messages, greets, talks, threadMessages])
  | sender i ev t t' ht hstep => exact hadds [] (adds_nil rfl rfl) (by simp [messages, greets, talks, threadMessages])

end Session

end ScreenLink
