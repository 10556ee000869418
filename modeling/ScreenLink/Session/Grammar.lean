import ScreenLink.Pairing.Gate
import ScreenLink.Session.Effects
import ScreenLink.Session.Messages
import ScreenLink.Session.Nonces

/-!
# What a session may say

The messages in a session's queue form a sentence: the Hello; when the store does not trust the peer `PairBegin` and one
`PairConfirm` for each `Confirm` the session takes in its pairing loop (`confirms`); on the controller `SetMode` and
`RealtimeOpen`, once; then data, which only the two roles' own messages are (`Speech`). In every run of the process,
whatever the peers send, each session keeps to it, and nothing beyond the pairing is said to a peer that the gate has
not accepted and that has not completed a pairing (`keeps_to_grammar`).
-/

namespace ScreenLink

/-- The messages of the main loop and of the threads of a session with this role. -/
def ControlMsg.isData (role : Role) : ControlMsg → Bool
  | .ping _ | .pong _ | .clipboard _ | .startMirror _ | .stopMirror => true
  | .modeAck .. => match role with
    | .controlled => true
    | .controller .. => false
  | .edgeEnter .. | .edgeLeave => match role with
    | .controlled => false
    | .controller .. => true
  | _ => false

/-- The message belongs to the Hello exchange or to the pairing. -/
def ControlMsg.isGreeting : ControlMsg → Bool
  | .hello .. | .reject _ | .pairBegin | .pairConfirm | .pairCancel _ => true
  | _ => false

namespace Phase

/-- The pairing loop runs. -/
def inLoop : Phase → Bool
  | .pairing .. => true
  | _ => false

theorem not_inLoop_of_started {p : Phase} (h : p.started = true) : p.inLoop = false := by
  cases p <;> simp_all [started, inLoop]

theorem not_inLoop_of_finished {p : Phase} (h : p.finished = true) : p.inLoop = false := by
  cases p <;> simp_all [finished, inLoop]

end Phase

namespace Session

/-- What is said until the gate is passed: the Hello, and in a pairing a `PairConfirm` for each confirmation. -/
def greeting (info : DeviceInfo) : Option ℕ → List ControlMsg
  | none => [.hello PROTOCOL_VERSION info]
  | some confirms => .hello PROTOCOL_VERSION info :: .pairBegin :: List.replicate confirms .pairConfirm

/-- What is said on entering the main loop. -/
def opening (port : BitVec 16) (epoch : BitVec 64) : Role → List ControlMsg
  | .controlled => []
  | .controller .. => [.setMode .control, .realtimeOpen port epoch]

/-- What a session past the gate, which has taken so many `Confirm`s in a pairing, has said by then: there was no pairing,
or it was confirmed. -/
def Admitted (info : DeviceInfo) (taken : ℕ) (said : List ControlMsg) : Prop :=
  taken = 0 ∧ said = greeting info none ∨ 0 < taken ∧ said = greeting info (some taken)

/-- The sentence of a session that has entered its main loop. -/
def Opened (info : DeviceInfo) (role : Role) (taken : ℕ) (said : List ControlMsg) : Prop :=
  ∃ greet port epoch data, Admitted info taken greet ∧ said = greet ++ opening port epoch role ++ data ∧
    ∀ msg ∈ data, msg.isData role = true

/-- The sentences of a session that has ended before. -/
inductive CutShort (info : DeviceInfo) : ℕ → List ControlMsg → Prop
  | silent : CutShort info 0 []
  | greeted : CutShort info 0 (greeting info none)
  | rejected (reason : String) : CutShort info 0 (greeting info none ++ [.reject reason])
  | begun (taken : ℕ) : CutShort info taken (greeting info (some taken))
  | cancelled (taken : ℕ) (reason : String) : CutShort info taken (greeting info (some taken) ++ [.pairCancel reason])

/-- The sentences of a session in a phase, when it has taken so many `Confirm`s in its pairing loop. -/
def Speech (info : DeviceInfo) (role : Role) (taken : ℕ) (said : List ControlMsg) : Phase → Prop
  | .start => taken = 0 ∧ said = []
  | .hello | .greeted _ | .gate _ => taken = 0 ∧ said = greeting info none
  | .pairing _ st => (st.localConfirmed = true ↔ 0 < taken) ∧ said = greeting info (some taken)
  | .paired _ => 0 < taken ∧ said = greeting info (some taken)
  | .authenticated _ => Admitted info taken said
  | .running _ | .closing _ _ => Opened info role taken said
  | .ended _ => CutShort info taken said ∨ Opened info role taken said

/-- The session takes a `Confirm` in its pairing loop. -/
def takesConfirm (s : Session) : SessionEvent → Bool
  | .cmd .confirm _ => s.phase.inLoop
  | _ => false

variable {x : Crates} {ar : Arith} {core : AppCore x} {s : Session} {event : SessionEvent} {p : AppCore x × Session}
  {info : DeviceInfo} {role : Role} {taken : ℕ} {said : List ControlMsg}

theorem takesConfirm_eq_false (h : ∀ epoch, event ≠ .cmd .confirm epoch) : s.takesConfirm event = false := by
  unfold takesConfirm
  split
  · exact absurd rfl (h _)
  · rfl

theorem takesConfirm_of_not_inLoop (h : s.phase.inLoop = false) : s.takesConfirm event = false := by
  unfold takesConfirm
  split
  · exact h
  · rfl

theorem greeting_succ (info : DeviceInfo) (confirms : ℕ) :
    greeting info (some confirms) ++ [.pairConfirm] = greeting info (some (confirms + 1)) := by
  simp [greeting, List.replicate_succ']

theorem Opened.append (h : Opened info role taken said) {msgs : List ControlMsg}
    (hmsgs : ∀ msg ∈ msgs, msg.isData role = true) : Opened info role taken (said ++ msgs) := by
  obtain ⟨greet, port, epoch, data, hgreet, rfl, hdata⟩ := h
  refine ⟨greet, port, epoch, data ++ msgs, hgreet, List.append_assoc .., fun msg hmsg => ?_⟩
  exact (List.mem_append.mp hmsg).elim (hdata msg) (hmsgs msg)

theorem Opened.speech (h : Opened info role taken said) {phase : Phase} (hphase : phase.started = true) :
    Speech info role taken said phase := by
  cases phase with
  | running peer => exact h
  | closing peer result => exact h
  | ended result => exact Or.inr h
  | _ => cases hphase

theorem speech_afterSelect (peer : DeviceInfo) {st : PairingState} (h : st.localConfirmed = true ↔ 0 < taken) :
    Speech info role taken (greeting info (some taken)) (afterSelect peer st) := by
  unfold afterSelect
  split_ifs with hcomplete
  · exact ⟨h.mp (Bool.and_eq_true_iff.mp hcomplete).1, rfl⟩
  · exact ⟨h, rfl⟩

/-! ### What is data -/

theorem isData_answers (role : Role) (got : ControlMsg) : ∀ msg ∈ answers role got, msg.isData role = true := by
  intro msg hmsg
  cases got with
  | setMode mode =>
    cases role with
    | controlled => exact List.mem_singleton.mp hmsg ▸ rfl
    | controller ip edge => cases hmsg
  | ping nonce => exact List.mem_singleton.mp hmsg ▸ rfl
  | _ => cases hmsg

theorem isData_talks (s : Session) (event : SessionEvent) : ∀ msg ∈ s.talks event, msg.isData s.role = true := by
  intro msg hmsg
  unfold talks at hmsg
  split at hmsg
  case h_1 => exact isData_answers s.role _ msg hmsg
  case h_2 =>
    split_ifs at hmsg
    · exact List.mem_singleton.mp hmsg ▸ rfl
    · cases hmsg
  case h_3 | h_4 => exact List.mem_singleton.mp hmsg ▸ rfl
  case h_5 => cases hmsg

theorem isData_threadMessages (hinv : ThreadsInv x s) (event : SessionEvent) :
    ∀ msg ∈ s.threadMessages x ar event, msg.isData s.role = true := by
  intro msg hmsg
  unfold threadMessages at hmsg
  split at hmsg
  case h_1 edge captured edgeNow =>
    obtain ⟨t, ht, hloop⟩ := List.mem_flatMap.mp hmsg
    have hrole := (hinv.host t (Option.mem_toList.mp ht)).2
    obtain ⟨news, hout, hnews⟩ := hostIter_out (x := x) ar t.desktop t.input ⟨edge, false, captured, edgeNow⟩
    rw [loopMessages, hout, List.drop_left] at hloop
    obtain ⟨o, ho, hctrl⟩ := List.mem_filterMap.mp hloop
    cases o with
    | ctrl sent =>
      obtain rfl := Option.some.inj hctrl
      rcases hnews _ ho with hof | ⟨ev, packet, heq⟩
      · -- the loop emits `EdgeEnter` and `EdgeLeave` only, and it is a controller's
        cases hs : s.role with
        | controlled => exact absurd hs hrole
        | controller ip edge => cases sent <;> first | rfl | exact hof.elim
      · cases heq
    | _ => cases hctrl
  case h_2 text => exact List.mem_singleton.mp hmsg ▸ rfl
  case h_3 => cases hmsg

theorem isData_messages (hinv : ThreadsInv x s) (hstarted : s.phase.started = true) (event : SessionEvent) :
    ∀ msg ∈ s.messages ar core event, msg.isData s.role = true := by
  have hgreets : s.greets core event = [] := by
    unfold greets
    cases hs : s.phase with
    | running info => rfl
    | closing info result => rfl
    | ended result => rfl
    | _ => simp [hs, Phase.started] at hstarted
  intro msg hmsg
  rw [messages, hgreets, List.nil_append] at hmsg
  exact (List.mem_append.mp hmsg).elim (isData_talks s event msg) (isData_threadMessages hinv event msg)

/-! ### One step -/

/-- What a session has said, and that its threads run only once it is in its main loop. -/
structure Spoken (info : DeviceInfo) (taken : ℕ) (s : Session) : Prop where
  speech : Speech info s.role taken s.out s.phase
  threads : s.clip = true ∨ s.host.isSome = true → s.phase.started = true ∧ Opened info s.role taken s.out

theorem clip_runningRecv (core : AppCore x) (s : Session) (info : DeviceInfo) (msg : ControlMsg) :
    (runningRecv core s info msg).2.clip = s.clip := by
  have htake : s.takeReceiver.clip = s.clip := by
    unfold takeReceiver
    split <;> rfl
  have hmirror : (mirrorInbound core s info msg).2.clip = s.clip := by
    cases msg with
    | startMirror epoch => exact htake
    | stopMirror => exact htake
    | _ => rfl
  have hinbound : ∀ (core : AppCore x) (s : Session), (handleInbound core s info msg).2.1.clip = s.clip := by
    intro core s
    unfold handleInbound
    split
    case h_1 | h_2 | h_3 => split <;> rfl
    case h_6 => split_ifs <;> rfl
    all_goals rfl
  unfold runningRecv
  dsimp only
  split <;> exact (hinbound _ _).trans hmirror

theorem clip_of_step (h : s.step ar core event = some p) (hwire : ∀ epoch desktop err, event ≠ .wire epoch desktop err)
    (hclip : p.2.clip = true) : s.clip = true := by
  cases steps_of_step h with
  | wire info epoch desktop err hs => exact absurd rfl (hwire epoch desktop err)
  | recvHello msg hs =>
    revert hclip
    unfold recvHello
    split
    · split_ifs <;> exact id
    · exact id
  | checkTrust info hs =>
    revert hclip
    unfold checkTrust
    split_ifs <;> exact id
  | pairingRecv info st msg hs => cases msg <;> exact hclip
  | pairingCmd info st cmd epoch hs => cases cmd <;> exact hclip
  | store info err hs => cases err <;> exact hclip
  | runningRecv info msg hs => exact (clip_runningRecv core s info msg).symm.trans hclip
  | runningCmd info cmd epoch hs =>
    revert hclip
    cases cmd with
    | startMirror =>
      unfold runningCmd
      cases s.mirrorTx with
      | some i => exact id
      | none => cases s.writer <;> exact id
    | stopMirror =>
      unfold runningCmd
      cases s.mirrorTx <;> exact id
    | _ => exact id
  | tick info hs =>
    revert hclip
    unfold tick
    dsimp only
    split_ifs <;> exact id
  | host t edge captured edgeNow hhost hlive =>
    obtain ⟨events, out, heq⟩ := hostStep_eq ar core s t edge captured edgeNow
    rw [heq] at hclip
    exact hclip
  | clipExit result hs => cases hclip
  | _ => exact hclip

theorem host_of_wire (h : s.step ar core event = some p) (hwire : ∀ epoch desktop err, event ≠ .wire epoch desktop err)
    (hhost : p.2.host.isSome = true) : s.host.isSome = true := by
  have hphase : ∀ info, s.phase = .authenticated info → p.2.phase ≠ .running info := by
    intro info hs hrunning
    have hmoves := step_moves h
    rw [hs, hrunning] at hmoves
    cases hmoves with
    | wired info epoch desktop err => exact hwire epoch desktop err rfl
  have hmove := host_of_step h
  generalize p.2.phase = phase, p.2.host = host at hmove hhost hphase
  cases hmove with
  | same => exact hhost
  | started peerIp edge epoch desktop info hrole hs => exact absurd rfl (hphase info hs)
  | kept phase t t' ht => exact ht ▸ rfl
  | iterated phase t tick ht => exact ht ▸ rfl

theorem threads_of_step (h : s.step ar core event = some p) (hthreads : p.2.clip = true ∨ p.2.host.isSome = true) :
    (s.clip = true ∨ s.host.isSome = true) ∨
      ∃ info epoch desktop err, s.phase = .authenticated info ∧ event = .wire epoch desktop err := by
  by_cases hwire : ∃ epoch desktop err, event = .wire epoch desktop err
  · obtain ⟨epoch, desktop, err, rfl⟩ := hwire
    cases steps_of_step h with
    | wire info epoch desktop err hs => exact Or.inr ⟨info, epoch, desktop, err, hs, rfl⟩
  · have hnot : ∀ epoch desktop err, event ≠ .wire epoch desktop err :=
      fun epoch desktop err heq => hwire ⟨epoch, desktop, err, heq⟩
    exact Or.inl (hthreads.imp (clip_of_step h hnot) (host_of_wire h hnot))

/-- A session that has entered its main loop says data. -/
theorem Opened.step (h : s.step ar core event = some p) (hopened : Opened info s.role taken s.out)
    (hmsgs : ∀ msg ∈ s.messages ar core event, msg.isData s.role = true) (hdied : event ≠ .writerDied) :
    Opened info p.2.role taken p.2.out := by
  rw [(step_const h).1, (step_messages h hdied).1]
  refine hopened.append fun msg hmsg => ?_
  cases hwriter : s.writer with
  | true => exact hmsgs msg (by simpa [hwriter] using hmsg)
  | false => simp [hwriter] at hmsg

theorem opened_wire {peer : DeviceInfo} (hs : s.phase = .authenticated peer) (hwriter : s.writer = true)
    (hspeech : Speech core.deviceInfo s.role taken s.out s.phase) (epoch : BitVec 64) (desktop : Rect)
    (err : Option Error) :
    (wire core s peer epoch desktop err).2.phase.started = true ∧
      Opened core.deviceInfo s.role taken (wire core s peer epoch desktop err).2.out := by
  rw [hs] at hspeech
  have hadmitted : Admitted core.deviceInfo taken s.out := hspeech
  unfold wire
  dsimp only
  cases hrole : s.role with
  | controlled => exact ⟨rfl, s.out, 0, 0, [], hadmitted, by simp [opening], nofun⟩
  | controller ip edge =>
    have hopened : Opened core.deviceInfo (.controller ip edge) taken
        ((s.send (.setMode .control)).send (.realtimeOpen core.realtimePort epoch)).out :=
      ⟨s.out, core.realtimePort, epoch, [], hadmitted, by simp [send, hwriter, opening], nofun⟩
    cases err <;> exact ⟨rfl, hopened⟩

theorem out_send_alive (hwriter : s.writer = true) (msg : ControlMsg) : (s.send msg).out = s.out ++ [msg] := by
  simp [send, hwriter]

theorem speech_recvHello (hwriter : s.writer = true) (hs : s.phase = .hello)
    (hspeech : Speech core.deviceInfo s.role taken s.out s.phase) (msg : ControlMsg) :
    Speech core.deviceInfo s.role taken (s.recvHello msg).out (s.recvHello msg).phase := by
  rw [hs] at hspeech
  obtain ⟨rfl, hsaid⟩ := hspeech
  unfold recvHello
  split
  · split_ifs
    · refine Or.inl ?_
      rw [show (Session.fail _ _).out = (s.send _).out from rfl, out_send_alive hwriter, hsaid]
      exact .rejected _
    · exact ⟨rfl, hsaid⟩
  · exact Or.inl (hsaid ▸ .greeted)

theorem speech_checkTrust {info : DeviceInfo} (hwriter : s.writer = true) (hs : s.phase = .gate info)
    (hspeech : Speech core.deviceInfo s.role taken s.out s.phase) :
    Speech core.deviceInfo s.role taken (checkTrust core s info).2.out (checkTrust core s info).2.phase := by
  rw [hs] at hspeech
  obtain ⟨rfl, hsaid⟩ := hspeech
  unfold checkTrust
  split_ifs
  · exact Or.inl ⟨rfl, hsaid⟩
  · refine ⟨by simp, ?_⟩
    change (s.send _).out = _
    rw [out_send_alive hwriter, hsaid]
    rfl

theorem speech_pairingRecv {info : DeviceInfo} {st : PairingState} (hs : s.phase = .pairing info st)
    (hspeech : Speech core.deviceInfo s.role taken s.out s.phase) (msg : ControlMsg) :
    Speech core.deviceInfo s.role taken (pairingRecv core s info st msg).2.out
      (pairingRecv core s info st msg).2.phase := by
  rw [hs] at hspeech
  obtain ⟨hlocal, hsaid⟩ := hspeech
  cases msg with
  | pairBegin => exact hsaid ▸ speech_afterSelect info hlocal
  | pairConfirm =>
    have hremote : st.confirmRemote.localConfirmed = true ↔ 0 < taken := hlocal
    exact hsaid ▸ speech_afterSelect info hremote
  | _ => exact Or.inl (hsaid ▸ .begun taken)

theorem speech_pairingCancel {info : DeviceInfo} {st : PairingState} (hwriter : s.writer = true)
    (hs : s.phase = .pairing info st) (hspeech : Speech core.deviceInfo s.role taken s.out s.phase) :
    Speech core.deviceInfo s.role taken (pairingCancel core s info).2.out (pairingCancel core s info).2.phase := by
  rw [hs] at hspeech
  obtain ⟨-, hsaid⟩ := hspeech
  refine Or.inl ?_
  change CutShort core.deviceInfo taken (s.send _).out
  rw [out_send_alive hwriter, hsaid]
  exact .cancelled taken _

theorem speech_pairingCmd {info : DeviceInfo} {st : PairingState} (hwriter : s.writer = true)
    (hs : s.phase = .pairing info st) (hspeech : Speech core.deviceInfo s.role taken s.out s.phase) (cmd : SessionCmd) :
    Speech core.deviceInfo s.role (taken + if cmd = .confirm then 1 else 0) (pairingCmd core s info st cmd).2.out
      (pairingCmd core s info st cmd).2.phase := by
  have hcancel := speech_pairingCancel hwriter hs hspeech
  rw [hs] at hspeech
  obtain ⟨hlocal, hsaid⟩ := hspeech
  cases cmd with
  | confirm =>
    change Speech core.deviceInfo s.role (taken + 1) (s.send _).out (afterSelect info st.confirmLocal)
    rw [out_send_alive hwriter, hsaid, greeting_succ]
    exact speech_afterSelect info (by simp [PairingState.confirmLocal])
  | cancel | disconnect => exact hcancel
  | _ => exact hsaid ▸ speech_afterSelect info hlocal

/-- A session says its lines in their order until it enters its main loop. -/
theorem Speech.step (h : s.step ar core event = some p) (hwriter : s.writer = true) (hstart : s.phase.started = false)
    (hthreads : s.clip = false ∧ s.host = none) (hspeech : Speech core.deviceInfo s.role taken s.out s.phase)
    (hdied : event ≠ .writerDied) {after : ℕ} (hafter : after = taken + if s.takesConfirm event then 1 else 0) :
    Speech core.deviceInfo s.role after p.2.out p.2.phase := by
  have hat : ∀ phase, s.phase = phase → Speech core.deviceInfo s.role taken s.out phase := fun _ hs => hs ▸ hspeech
  have hsame : (∀ epoch, event ≠ .cmd .confirm epoch) → after = taken := by
    intro hne
    rw [hafter, takesConfirm_eq_false hne]
    rfl
  have hended : ∀ result, s.phase ≠ .ended result := by
    intro result hs
    simp [hs, Phase.started] at hstart
  have hrunning : ∀ peer, s.phase ≠ .running peer := by
    intro peer hs
    simp [hs, Phase.started] at hstart
  cases steps_of_step h with
  | sayHello hs =>
    obtain rfl := hsame (by simp)
    obtain ⟨hnone, hsaid⟩ := hat _ hs
    refine ⟨hnone, ?_⟩
    change (s.send _).out = greeting core.deviceInfo none
    rw [out_send_alive hwriter, hsaid]
    rfl
  | startClosed err hs =>
    obtain rfl := hsame (by simp)
    obtain ⟨rfl, hsaid⟩ := hat _ hs
    exact Or.inl (hsaid ▸ .silent)
  | recvHello msg hs =>
    obtain rfl := hsame (by simp)
    exact speech_recvHello hwriter hs hspeech msg
  | helloClosed err hs =>
    obtain rfl := hsame (by simp)
    obtain ⟨rfl, hsaid⟩ := hat _ hs
    exact Or.inl (hsaid ▸ .greeted)
  | setSlot info hs =>
    obtain rfl := hsame (by simp)
    exact (hat _ hs : after = 0 ∧ s.out = greeting core.deviceInfo none)
  | checkTrust info hs =>
    obtain rfl := hsame (by simp)
    exact speech_checkTrust hwriter hs hspeech
  | pairingRecv info st msg hs =>
    obtain rfl := hsame (by simp)
    exact speech_pairingRecv hs hspeech msg
  | pairingClosed info st err hs =>
    obtain rfl := hsame (by simp)
    obtain ⟨-, hsaid⟩ := hat _ hs
    exact Or.inl (hsaid ▸ .begun after)
  | pairingCmd info st cmd epoch hs =>
    have htaken : after = taken + if cmd = .confirm then 1 else 0 := by
      rw [hafter]
      cases cmd <;> simp [takesConfirm, hs, Phase.inLoop]
    exact htaken ▸ speech_pairingCmd hwriter hs hspeech cmd
  | pairingCmdClosed info st hs =>
    obtain rfl := hsame (by simp)
    exact speech_pairingCancel hwriter hs hspeech
  | store info err hs =>
    obtain rfl := hsame (by simp)
    obtain ⟨htaken, hsaid⟩ := hat _ hs
    cases err with
    | none => exact Or.inr ⟨htaken, hsaid⟩
    | some err => exact Or.inl (hsaid ▸ .begun after)
  | wire info epoch desktop err hs =>
    obtain rfl := hsame (by simp)
    obtain ⟨hphase, hopened⟩ := opened_wire hs hwriter hspeech epoch desktop err
    exact hopened.speech hphase
  | writerDied hslot => exact absurd rfl hdied
  | host t edge captured edgeNow hhost hlive => exact absurd (hthreads.2.symm.trans hhost) (by simp)
  | hostExit t hhost hstop => exact absurd (hthreads.2.symm.trans hhost) (by simp)
  | clipboard text hclip => exact absurd (hthreads.1.symm.trans hclip) Bool.false_ne_true
  | sender i ev t t' ht hstep =>
    obtain rfl := hsame (by simp)
    exact hspeech
  | teardown info result hs => simp [hs, Phase.started] at hstart
  | clipExit result hs => exact absurd hs (hended result)
  | runningRecv info msg hs => exact absurd hs (hrunning info)
  | runningClosed info err hs => exact absurd hs (hrunning info)
  | runningCmd info cmd epoch hs => exact absurd hs (hrunning info)
  | runningCmdClosed info hs => exact absurd hs (hrunning info)
  | tick info hs => exact absurd hs (hrunning info)

theorem messages_ended {result : Option SessionError} (hs : s.phase = .ended result)
    (hthreads : s.clip = false ∧ s.host = none) (h : s.step ar core event = some p) : s.messages ar core event = [] := by
  have hclip : ∀ text, event ≠ .clipboard text := by
    rintro text rfl
    simp [Session.step, hthreads.1] at h
  have hgreets : s.greets core event = [] := by simp [greets, hs]
  have htalks : s.talks event = [] := by simp [talks, hs]
  rw [messages, hgreets, htalks, List.nil_append, List.nil_append]
  unfold threadMessages
  split
  · simp [hthreads.2]
  · exact absurd rfl (hclip _)
  · rfl

theorem Spoken.step (h : s.step ar core event = some p) (hwriter : s.writer = true) (hdied : event ≠ .writerDied)
    (hinv : ThreadsInv x s) (hspoken : Spoken core.deviceInfo taken s) {after : ℕ}
    (hafter : after = taken + if s.takesConfirm event then 1 else 0) : Spoken core.deviceInfo after p.2 := by
  have hrole := (step_const h).1
  have hmoves := step_moves h
  -- in the main loop and after it no `Confirm` is counted
  have hsame : s.phase.started = true → after = taken := by
    intro hstarted
    rw [hafter, takesConfirm_of_not_inLoop (Phase.not_inLoop_of_started hstarted)]
    rfl
  by_cases hthreads : s.clip = true ∨ s.host.isSome = true
  · -- the threads and the main loop say data
    obtain ⟨hstarted, hopened⟩ := hspoken.threads hthreads
    obtain rfl := hsame hstarted
    have hstarted' := Phase.started_of_moves hmoves hstarted
    have hopened' := hopened.step h (isData_messages hinv hstarted event) hdied
    exact ⟨hopened'.speech hstarted', fun _ => ⟨hstarted', hopened'⟩⟩
  · have hnone : s.clip = false ∧ s.host = none := by simpa using hthreads
    have hnew : p.2.clip = true ∨ p.2.host.isSome = true →
        p.2.phase.started = true ∧ Opened core.deviceInfo s.role after p.2.out := by
      intro hrun
      rcases threads_of_step h hrun with hbefore | ⟨peer, epoch, desktop, err, hs, rfl⟩
      · exact absurd hbefore hthreads
      · obtain rfl : after = taken := by rw [hafter, takesConfirm_eq_false (by simp)]; rfl
        cases steps_of_step h with
        | wire peer epoch desktop err hs => exact opened_wire hs hwriter hspoken.speech epoch desktop err
    refine ⟨?_, hrole ▸ hnew⟩
    rw [hrole]
    cases hstarted : s.phase.started with
    | false => exact hspoken.speech.step h hwriter hstarted hnone hdied hafter
    | true =>
      obtain rfl := hsame hstarted
      have hstarted' := Phase.started_of_moves hmoves hstarted
      have hopened : Opened core.deviceInfo s.role after s.out → Speech core.deviceInfo s.role after p.2.out p.2.phase :=
        fun hopened => Opened.speech (hrole ▸ hopened.step h (isData_messages hinv hstarted event) hdied) hstarted'
      have hat : ∀ phase, s.phase = phase → Speech core.deviceInfo s.role after s.out phase :=
        fun _ hs => hs ▸ hspoken.speech
      cases hs : s.phase with
      | running peer => exact hopened (hat _ hs)
      | closing peer result => exact hopened (hat _ hs)
      | ended result =>
        rcases hat _ hs with hcut | hsaid
        · have hout := (step_messages h hdied).1
          rw [messages_ended hs hnone h, ite_self, List.append_nil] at hout
          have hfinished := Phase.finished_of_moves hmoves (by rw [hs]; rfl)
          rw [hout]
          cases hs' : p.2.phase with
          | ended result' => exact Or.inl hcut
          | _ => simp [hs', Phase.finished] at hfinished
        · exact hopened hsaid
      | _ => simp [hs, Phase.started] at hstarted

/-- What a session keeps to: once its writer has died the queue is gone, and after its teardown nothing is added. -/
structure Keeps (info : DeviceInfo) (taken : ℕ) (s : Session) : Prop where
  alive : s.writer = true → Spoken info taken s
  dead : s.writer = false → s.out = [] ∨ s.phase.finished = true ∧ Opened info s.role taken s.out

theorem keeps_new (info : DeviceInfo) (role : Role) (ip : IpAddr) (key : SessionKey) (cert : Bytes) :
    Keeps info 0 (.new role ip key cert) :=
  ⟨fun _ => ⟨⟨rfl, rfl⟩, by simp [Session.new]⟩, fun h => nomatch h⟩

theorem Keeps.step (h : s.step ar core event = some p) (hinv : ThreadsInv x s) (hkeeps : Keeps core.deviceInfo taken s)
    {after : ℕ} (hafter : after = taken + if s.takesConfirm event then 1 else 0) : Keeps core.deviceInfo after p.2 := by
  by_cases hdied : event = .writerDied
  · subst hdied
    cases steps_of_step h with
    | writerDied hslot => exact ⟨nofun, fun _ => Or.inl rfl⟩
  · obtain ⟨hout, hwriter⟩ := step_messages h hdied
    cases halive : s.writer with
    | true =>
      refine ⟨fun _ => (hkeeps.alive halive).step h halive hdied hinv hafter, fun hdead => Or.inr ?_⟩
      rcases hwriter with hsame | ⟨rfl, -⟩
      · rw [hsame, halive] at hdead
        cases hdead
      · obtain rfl : after = taken := by rw [hafter, takesConfirm_eq_false (by simp)]; rfl
        cases steps_of_step h with
        | teardown peer result hs =>
          have hspeech := (hkeeps.alive halive).speech
          rw [hs] at hspeech
          exact ⟨rfl, hspeech⟩
    | false =>
      have hdead : p.2.writer = false := hwriter.elim (·.trans halive) And.right
      refine ⟨fun hwas => absurd (hwas.symm.trans hdead) nofun, fun _ => ?_⟩
      rw [halive, if_neg Bool.false_ne_true, List.append_nil] at hout
      rw [hout, (step_const h).1]
      refine (hkeeps.dead halive).imp_right fun ⟨hfinished, hopened⟩ =>
        ⟨Phase.finished_of_moves (step_moves h) hfinished, ?_⟩
      rwa [hafter, takesConfirm_of_not_inLoop (Phase.not_inLoop_of_finished hfinished)]

theorem Keeps.sentence (h : Keeps info taken s) :
    s.writer = false ∧ s.out = [] ∨ Speech info s.role taken s.out s.phase := by
  cases hwriter : s.writer with
  | true => exact Or.inr (h.alive hwriter).speech
  | false =>
    rcases h.dead hwriter with hnone | ⟨hfinished, hopened⟩
    · exact Or.inl ⟨rfl, hnone⟩
    · refine Or.inr (hopened.speech ?_)
      cases hs : s.phase with
      | ended result => rfl
      | _ => simp [hs, Phase.finished] at hfinished

theorem past_of_messages {msg : ControlMsg} (hmsg : msg ∈ s.messages ar core event) (hnot : msg.isGreeting = false)
    (h : s.step ar core event = some p) : s.phase.pastGate = true ∨ s.clip = true ∨ s.host.isSome = true := by
  rcases List.mem_append.mp hmsg with hloop | hthread
  · left
    rcases List.mem_append.mp hloop with hgreet | htalk
    · unfold greets at hgreet
      split at hgreet
      case h_8 peer epoch desktop err hs => exact hs ▸ rfl
      case h_9 => cases hgreet
      case h_2 | h_3 =>
        split_ifs at hgreet
        all_goals first | cases hgreet; done | (rw [List.mem_singleton.mp hgreet] at hnot; cases hnot)
      all_goals
        rw [List.mem_singleton.mp hgreet] at hnot
        cases hnot
    · unfold talks at htalk
      split at htalk
      case h_5 => cases htalk
      all_goals
        rename_i hs
        rw [hs]
        rfl
  · right
    unfold threadMessages at hthread
    split at hthread
    case h_1 edge captured edgeNow =>
      obtain ⟨t, ht, -⟩ := List.mem_flatMap.mp hthread
      exact Or.inr (Option.mem_toList.mp ht ▸ rfl)
    case h_2 text =>
      cases steps_of_step h with
      | clipboard text hclip => exact Or.inl hclip
    case h_3 => cases hthread

end Session

namespace Node

open Machine

variable {x : Crates} {ar : Arith} {core : AppCore x} {es : List NodeEvent} {n n' : Node x} {e : NodeEvent}

/-- Session `i` takes a `Confirm` in its pairing loop. -/
def confirmTaken (i : ℕ) (n : Node x) (e : NodeEvent) : Bool :=
  (n.acts e).any fun act => act.1 == i && (n.session? i).any fun s => s.takesConfirm act.2

/-- How many `Confirm`s session `i` has taken in its pairing loop. -/
def confirms (ar : Arith) (core : AppCore x) (es : List NodeEvent) (i : ℕ) : ℕ :=
  tally (step ar) (confirmTaken i) (initial core) es

theorem confirmTaken_idle {i : ℕ} (hacts : n.acts e = none) : confirmTaken i n e = false := by
  simp [confirmTaken, hacts]

theorem confirmTaken_acts {i k : ℕ} {event : SessionEvent} {s : Session} (hacts : n.acts e = some (k, event))
    (hs : n.session? i = some s) : confirmTaken i n e = (k == i && s.takesConfirm event) := by
  simp [confirmTaken, hacts, hs]

theorem confirms_absent {i : ℕ} (hrun : run (step ar) (initial core) es = some n) (hnone : n.session? i = none) :
    confirms ar core es i = 0 := by
  refine run_induction (P := fun es n => n.session? i = none → confirms ar core es i = 0) (fun _ => rfl) ?_ es n hrun hnone
  intro es n e n' hrun ih hstep hnone
  have hwas : n.session? i = none := by
    cases hacts : n.acts e with
    | none =>
      rcases session?_of_idle hstep hacts i with hsame | ⟨hwas, -⟩
      · exact hsame.symm.trans hnone
      · exact hwas
    | some act =>
      obtain ⟨t, p, -, -, hsessions, -⟩ := step_of_acts hstep hacts
      rw [hsessions i] at hnone
      split_ifs at hnone
      exact hnone
  rw [confirms, tally_snoc hrun, ← confirms, ih hwas]
  simp [confirmTaken, hwas]

/-- Session `i` keeps to the grammar, and has been accepted when its threads run or it has said more. -/
structure Disciplined (ar : Arith) (core : AppCore x) (es : List NodeEvent) (taken : ℕ) (i : ℕ) (s : Session) : Prop where
  inv : Session.ThreadsInv x s
  keeps : Session.Keeps core.deviceInfo taken s
  threads : s.clip = true ∨ s.host.isSome = true → Audited.Accepted ar core es i
  said : ∀ msg ∈ s.out, msg.isGreeting = false → Audited.Accepted ar core es i

theorem Disciplined.append {taken i : ℕ} {s : Session} (h : Disciplined ar core es taken i s) (fs : List NodeEvent) :
    Disciplined ar core (es ++ fs) taken i s :=
  ⟨h.inv, h.keeps, fun ht => (h.threads ht).append fs, fun msg hmsg hnot => (h.said msg hmsg hnot).append fs⟩

theorem disciplined_new (es : List NodeEvent) (i : ℕ) (role : Role) (ip : IpAddr) (key : SessionKey) (cert : Bytes) :
    Disciplined ar core es 0 i (.new role ip key cert) :=
  ⟨Session.threadsInv_new role ip key cert, Session.keeps_new _ role ip key cert, by simp [Session.new],
    fun _ hmsg => nomatch hmsg⟩

theorem Disciplined.step {taken i : ℕ} {s : Session} {event : SessionEvent} {c : AppCore x} {p : AppCore x × Session}
    (hinfo : c.deviceInfo = core.deviceInfo) (h : s.step ar c event = some p) (hs : Disciplined ar core es taken i s)
    (hpast : s.phase.pastGate = true → Audited.Accepted ar core es i) :
    Disciplined ar core es (taken + if s.takesConfirm event then 1 else 0) i p.2 := by
  refine ⟨Session.step_threadsInv h hs.inv, hinfo ▸ Session.Keeps.step h hs.inv (hinfo ▸ hs.keeps) rfl, fun hthreads => ?_,
    fun msg hmsg hnot => ?_⟩
  · rcases Session.threads_of_step h hthreads with hbefore | ⟨peer, epoch, desktop, err, hphase, -⟩
    · exact hs.threads hbefore
    · exact hpast (hphase ▸ rfl)
  · by_cases hdied : event = .writerDied
    · subst hdied
      cases Session.steps_of_step h with
      | writerDied hslot => cases hmsg
    · rw [(Session.step_messages h hdied).1] at hmsg
      rcases List.mem_append.mp hmsg with hold | hnew
      · exact hs.said msg hold hnot
      · split_ifs at hnew
        · exact (Session.past_of_messages hnew hnot h).elim hpast hs.threads
        · cases hnew

theorem deviceInfo_of_step (h : Node.step ar n e = some n') : n'.core.deviceInfo = n.core.deviceInfo := by
  have hcore : ∀ (i : ℕ) (name : String) (s : Session) (queue : List Queued) (event : SessionEvent)
      (p : AppCore x × Session), s.step ar n.core event = some p →
        (n.afterStep i name s queue event p).core.deviceInfo = n.core.deviceInfo := by
    intro i name s queue event p hp
    rw [← (Session.step_const hp).2.2.2.2]
    unfold afterStep report
    dsimp only
    split_ifs
    · rfl
    · split <;> rfl
  cases steps_of_step h with
  | command i epoch s name q queue p hh hstep => exact hcore i name s queue _ p hstep
  | session i event s name queue p hh hevent hstep => exact hcore i name s queue event p hstep
  | receive c rest hd hc =>
    obtain ⟨cmd, answers⟩ := c
    cases cmd <;> rfl
  | visit fingerprint cmd next targets hd =>
    unfold Node.visit
    split <;> rfl
  | send cmd targets n' hd hsend =>
    unfold sendTo at hsend
    split at hsend
    case h_1 => exact Option.some.inj hsend ▸ rfl
    case h_2 i rest =>
      split at hsend
      case h_1 => cases hsend
      case h_2 t hh => split_ifs at hsend <;> exact Option.some.inj hsend ▸ rfl
  | datagram packet =>
    change (Node.datagram n.core packet).deviceInfo = _
    unfold Node.datagram
    split
    · rfl
    · dsimp only
      split
      · rfl
      · split <;> rfl
  | _ => rfl

theorem run_disciplined (hrun : run (step ar) (initial core) es = some n) :
    n.core.deviceInfo = core.deviceInfo ∧
      ∀ i s, n.session? i = some s → Disciplined ar core es (confirms ar core es i) i s := by
  refine run_induction (P := fun es n => n.core.deviceInfo = core.deviceInfo ∧
    ∀ i s, n.session? i = some s → Disciplined ar core es (confirms ar core es i) i s) ⟨rfl, fun i s hs => ?_⟩ ?_ es n hrun
  · simp [session?, initial] at hs
  · rintro es n e n' hrun ⟨hinfo, hall⟩ hstep
    refine ⟨(deviceInfo_of_step hstep).trans hinfo, fun i s hs => ?_⟩
    rw [confirms, tally_snoc hrun, ← confirms]
    cases hacts : n.acts e with
    | none =>
      rw [confirmTaken_idle hacts]
      rcases session?_of_idle hstep hacts i with hsame | ⟨hnone, role, ip, key, cert, hnew⟩
      · exact (hall i s (hsame ▸ hs)).append [e]
      · obtain rfl := Option.some.inj (hnew.symm.trans hs)
        rw [confirms_absent hrun hnone]
        exact disciplined_new (es ++ [e]) i role ip key cert
    | some act =>
      obtain ⟨k, event⟩ := act
      obtain ⟨t, p, ht, hp, hsessions, -⟩ := step_of_acts hstep hacts
      rw [hsessions i] at hs
      by_cases hik : i = k
      · subst hik
        rw [if_pos rfl] at hs
        cases hs
        rw [confirmTaken_acts hacts ht, beq_self_eq_true, Bool.true_and]
        exact ((hall i t ht).step hinfo hp (accepted_of_past hrun ht)).append [e]
      · rw [if_neg hik] at hs
        rw [confirmTaken_acts hacts hs, beq_eq_false_iff_ne.mpr (Ne.symm hik), Bool.false_and]
        exact (hall i s hs).append [e]

/-- Bob pairs with Alice, whom it does not trust, and its user answers the prompt twice; then it talks to Alice. -/
def bobTalks : List NodeEvent :=
  comesToPairing 0 certAlice aliceInfo ++
    [.confirm 0, .confirm 0, .receive, .visit, .visit, .send, .send, .receive, .visit, .visit, .send, .send,
      .command 0 0, .command 0 0, .session 0 (.recv .pairConfirm), .session 0 (.store none),
      .session 0 (.wire 0 ⟨0, 0, 1920, 1080⟩ none), .session 0 .tick, .session 0 (.recv (.setMode .control)),
      .session 0 (.clipboard "hi")]

end Node

end ScreenLink
