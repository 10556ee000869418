import ScreenLink.Pairing.Handshake
import ScreenLink.Session.Link
import ScreenLink.Session.Threads

/-!
# A session as a party of the handshake

`Abstracts` relates one session to a party of `Handshake`: the phases up to the gate are `early`, the pairing loop is
`loop`, and all that a session sends once it is past the gate is data. An event that reads no message moves the session
as the party moves (`abstracts_local`); a message does to the session what it does to the party (`abstracts_recv`).
-/

namespace ScreenLink

open Handshake

/-- A control message as a message of the handshake; the Hello comes before it. -/
def ControlMsg.abs : ControlMsg → Option Msg
  | .hello .. => none
  | .pairBegin => some .begin
  | .pairConfirm => some .confirm
  | .pairCancel _ => some .cancel
  | _ => some .data

/-- The event is one that is recorded in the pairing loop. -/
def SessionEvent.recorded : SessionEvent → Bool
  | .cmd .. | .closed _ => true
  | _ => false

namespace Phase

def isPaired : Phase → Bool
  | .paired _ => true
  | _ => false

/-- The stages of the handshake that a phase can be. -/
def Abs : Phase → Stage → Prop
  | .start, stage | .hello, stage | .greeted _, stage | .gate _, stage => stage = .early
  | .pairing _ st, stage => stage = .loop st.localConfirmed st.remoteConfirmed ∧ st.isComplete = false
  | .paired _, stage | .authenticated _, stage | .running _, stage => stage = .through
  | .closing _ result, stage => stage = .through ∧ ∀ got, result ≠ some (.unexpectedDuringPairing got)
  | .ended result, stage => stage.waiting = false ∧
      ∀ got, result = some (.unexpectedDuringPairing got) → stage = .broken

/-- Where a session that has passed its gate with the peer `info` goes, up to the teardown. -/
inductive Follows (info : DeviceInfo) : Phase → Prop
  | running : Follows info (.running info)
  | closing (result : Option SessionError) (h : ∀ got, result ≠ some (.unexpectedDuringPairing got)) :
    Follows info (.closing info result)
  | failed (err : Error) : Follows info (.ended (some (.failed err)))

theorem Follows.facts {info : DeviceInfo} {phase : Phase} (h : Follows info phase) :
    phase.Abs .through ∧ phase.isPaired = false ∧ ∀ info', phase.info? = some info' → info = info' := by
  cases h with
  | running => exact ⟨rfl, rfl, fun info' h => Option.some.inj h⟩
  | closing result hresult => exact ⟨⟨rfl, hresult⟩, rfl, fun info' h => Option.some.inj h⟩
  | failed err => exact ⟨⟨rfl, nofun⟩, rfl, nofun⟩

end Phase

namespace Session

variable {x : Crates} {ar : Arith} {core : AppCore x} {s : Session} {event : SessionEvent} {p : AppCore x × Session}

/-! ### What a session sends -/

/-- From `s` to `s'` messages with the property `ok` are sent, if the writer is alive. -/
def Says (ok : ControlMsg → Prop) (s s' : Session) : Prop :=
  ∃ msgs, s'.out = s.out ++ msgs ∧ (∀ msg ∈ msgs, ok msg) ∧ (s.writer = false → msgs = []) ∧ s'.writer = s.writer

theorem says_same {ok : ControlMsg → Prop} {s' : Session} (hout : s'.out = s.out) (hwriter : s'.writer = s.writer) :
    Says ok s s' :=
  ⟨[], by rw [hout, List.append_nil], nofun, fun _ => rfl, hwriter⟩

theorem says_send {ok : ControlMsg → Prop} (s : Session) {msg : ControlMsg} (hmsg : ok msg) :
    Says ok s (s.send msg) := by
  refine ⟨if s.writer then [msg] else [], ?_, ?_, ?_, rfl⟩
  · cases hwriter : s.writer <;> simp [send, hwriter]
  · intro m hm
    split_ifs at hm
    · rwa [List.mem_singleton.mp hm]
    · cases hm
  · intro hwriter
    rw [hwriter]
    rfl

theorem Says.trans {ok : ControlMsg → Prop} {s s' s'' : Session} (h : Says ok s s') (h' : Says ok s' s'') :
    Says ok s s'' := by
  obtain ⟨msgs, hout, hok, hnone, hwriter⟩ := h
  obtain ⟨msgs', hout', hok', hnone', hwriter'⟩ := h'
  refine ⟨msgs ++ msgs', by rw [hout', hout, List.append_assoc], fun msg hmsg => ?_, fun hs => ?_,
    hwriter'.trans hwriter⟩
  · exact (List.mem_append.mp hmsg).elim (hok msg) (hok' msg)
  · rw [hnone hs, hnone' (hwriter.trans hs), List.append_nil]

theorem Says.congr {ok : ControlMsg → Prop} {s' t : Session} (h : Says ok s s') (hout : t.out = s'.out)
    (hwriter : t.writer = s'.writer) : Says ok s t :=
  h.trans (says_same hout hwriter)

/-- Only data is sent. -/
abbrev SaysData : Session → Session → Prop := Says fun msg => msg.abs = some .data

theorem saysData_send (s : Session) (msg : ControlMsg) (hmsg : msg.abs = some .data) : SaysData s (s.send msg) :=
  says_send s hmsg

theorem saysData_wire (core : AppCore x) (s : Session) (info : DeviceInfo) (epoch : BitVec 64) (desktop : Rect)
    (err : Option Error) : SaysData s (wire core s info epoch desktop err).2 := by
  unfold wire
  dsimp only
  split
  · exact says_same rfl rfl
  · have hsent : SaysData s ((s.send (.setMode .control)).send (.realtimeOpen core.realtimePort epoch)) :=
      (saysData_send s _ rfl).trans (saysData_send _ _ rfl)
    split <;> exact hsent.congr rfl rfl

theorem saysData_mirrorInbound (core : AppCore x) (s : Session) (info : DeviceInfo) (msg : ControlMsg) :
    SaysData s (mirrorInbound core s info msg).2 := by
  have htake : s.takeReceiver.out = s.out ∧ s.takeReceiver.writer = s.writer := by
    unfold takeReceiver
    split <;> exact ⟨rfl, rfl⟩
  cases msg with
  | startMirror epoch => exact says_same htake.1 htake.2
  | stopMirror => exact says_same htake.1 htake.2
  | _ => exact says_same rfl rfl

theorem saysData_handleInbound (core : AppCore x) (s : Session) (info : DeviceInfo) (msg : ControlMsg) :
    SaysData s (handleInbound core s info msg).2.1 := by
  unfold handleInbound
  split
  case h_1 =>
    split
    · exact saysData_send s _ rfl
    · exact says_same rfl rfl
  case h_2 | h_3 => split <;> exact says_same rfl rfl
  case h_5 => exact saysData_send s _ rfl
  case h_6 => split_ifs <;> exact says_same rfl rfl
  all_goals exact says_same rfl rfl

theorem saysData_runningRecv (core : AppCore x) (s : Session) (info : DeviceInfo) (msg : ControlMsg) :
    SaysData s (runningRecv core s info msg).2 := by
  have h := (saysData_mirrorInbound core s info msg).trans
    (saysData_handleInbound (mirrorInbound core s info msg).1 (mirrorInbound core s info msg).2 info msg)
  unfold runningRecv
  dsimp only
  split
  · exact h
  · exact h.congr rfl rfl

theorem saysData_runningCmd (core : AppCore x) (s : Session) (info : DeviceInfo) (cmd : SessionCmd)
    (epoch : BitVec 64) : SaysData s (runningCmd core s info cmd epoch).2 := by
  cases cmd with
  | startMirror =>
    unfold runningCmd
    dsimp only
    split
    · exact says_same rfl rfl
    · split_ifs
      · exact says_same rfl rfl
      · exact (saysData_send s (.startMirror epoch) rfl).congr rfl rfl
  | stopMirror =>
    unfold runningCmd
    dsimp only
    split
    · exact (saysData_send s .stopMirror rfl).congr rfl rfl
    · exact saysData_send s .stopMirror rfl
  | _ => exact says_same rfl rfl

theorem saysData_tick (s : Session) (info : DeviceInfo) : SaysData s (s.tick info) := by
  unfold tick
  dsimp only
  split_ifs
  · exact says_same rfl rfl
  · exact saysData_send { s with pingNonce := s.pingNonce + 1, pingSent := s.pingSent ++ [s.pingNonce + 1] }
      (.ping (s.pingNonce + 1)) rfl

theorem saysData_forward (os : List HostOut) (hos : ∀ o ∈ os, HostOut.ofLoop o ∨ ∃ ev packet, o = .udp ev packet)
    (core : AppCore x) (s : Session) : SaysData s (os.foldl forwardOne (core, s)).2 := by
  induction os generalizing core s with
  | nil => exact says_same rfl rfl
  | cons o os ih =>
    have hrest : ∀ o ∈ os, HostOut.ofLoop o ∨ ∃ ev packet, o = .udp ev packet :=
      fun o ho => hos o (List.mem_cons_of_mem _ ho)
    rw [List.foldl_cons]
    cases o with
    | ctrl msg =>
      refine (says_send s ?_).trans (ih hrest core (s.send msg))
      rcases hos _ List.mem_cons_self with hmsg | ⟨ev, packet, heq⟩
      · cases msg <;> first | rfl | exact hmsg.elim
      · cases heq
    | event event => exact ih hrest (core.emit event) s
    | udp | suppress | park => exact ih hrest core s

theorem saysData_hostStep (ar : Arith) (core : AppCore x) (s : Session) (h : HostThread) (edge : ScreenEdge)
    (captured : Option CapturedEvent) (edgeNow : ScreenEdge) :
    SaysData s (hostStep ar core s h edge captured edgeNow).2 := by
  obtain ⟨news, hout, hnews⟩ := hostIter_out (x := x) ar h.desktop h.input ⟨edge, false, captured, edgeNow⟩
  unfold hostStep
  dsimp only
  rw [hout, List.drop_left]
  exact saysData_forward news hnews core _

theorem SaysData.weaken {s' : Session} (h : SaysData s s') : Says (fun _ => True) s s' := by
  obtain ⟨msgs, hout, -, hnone, hwriter⟩ := h
  exact ⟨msgs, hout, fun _ _ => trivial, hnone, hwriter⟩

theorem says_of_step (hstep : s.step ar core event = some p) (hdied : event ≠ .writerDied) (hdown : event ≠ .teardown) :
    Says (fun _ => True) s p.2 := by
  cases steps_of_step hstep with
  | sayHello hs => exact (says_send s trivial).congr rfl rfl
  | writerDied hslot => exact absurd rfl hdied
  | teardown info result hs => exact absurd rfl hdown
  | recvHello msg hs =>
    unfold recvHello
    split
    · split_ifs
      · exact (says_send s trivial).congr rfl rfl
      · exact says_same rfl rfl
    · exact says_same rfl rfl
  | checkTrust info hs =>
    unfold checkTrust
    split_ifs
    · exact says_same rfl rfl
    · exact (says_send s trivial).congr rfl rfl
  | pairingRecv info st msg hs => cases msg <;> exact says_same rfl rfl
  | pairingCmd info st cmd epoch hs =>
    cases cmd with
    | confirm | cancel | disconnect => exact (says_send s trivial).congr rfl rfl
    | _ => exact says_same rfl rfl
  | pairingCmdClosed info st hs => exact (says_send s trivial).congr rfl rfl
  | store info err hs => cases err <;> exact says_same rfl rfl
  | wire info epoch desktop err hs => exact (saysData_wire core s info epoch desktop err).weaken
  | runningRecv info msg hs => exact (saysData_runningRecv core s info msg).weaken
  | runningCmd info cmd epoch hs => exact (saysData_runningCmd core s info cmd epoch).weaken
  | tick info hs => exact (saysData_tick s info).weaken
  | host t edge captured edgeNow hhost hlive => exact (saysData_hostStep ar core s t edge captured edgeNow).weaken
  | clipboard text hclip => exact says_send s trivial
  | _ => exact says_same rfl rfl

/-! ### One end as a party -/

/-- The user's confirmation is taken in the pairing loop. -/
def confirms (s : Session) (event : SessionEvent) : Bool :=
  match event, s.phase with
  | .cmd .confirm _, .pairing _ _ => true
  | _, _ => false

/-- The stream ends in the pairing loop, with the peer's confirmation in `unread`. -/
def misses (s : Session) (event : SessionEvent) (unread : List ControlMsg) : Bool :=
  match event, s.phase with
  | .closed _, .pairing _ _ => decide (.pairConfirm ∈ unread)
  | _, _ => false

/-- The user's cancellation is taken in the pairing loop. -/
def cancels (s : Session) (event : SessionEvent) : Bool :=
  match event, s.phase with
  | .cmd .cancel _, .pairing _ _ | .cmd .disconnect _, .pairing _ _ => true
  | _, _ => false

/-- The session, whose peer's fingerprint is `peer`, is the party `P`; `trusted` is what the trust store said of the
peer at the start. -/
structure Abstracts (peer : String) (trusted : Bool) (core : AppCore x) (s : Session) (P : Party) : Prop where
  stage : s.phase.Abs P.stage
  out : P.out = s.out.filterMap ControlMsg.abs
  /-- A session that has left its main loop sends nothing any more. -/
  writer : P.writer = s.writer ∨ (P.stage = .through ∧ P.writer = true)
  info : ∀ info, s.phase.info? = some info → info.id.id = peer
  threads : s.host.isSome = true ∨ s.clip = true → P.stage = .through
  trust : core.trust.isTrusted peer = (trusted || decide (P.stage = .through ∧ s.phase.isPaired = false))

variable {peer : String} {trusted : Bool} {P : Party} {unread : List ControlMsg}

theorem abstracts_new {role : Role} {ip : IpAddr} {key : SessionKey} {cert : Bytes}
    (htrust : core.trust.isTrusted peer = trusted) :
    Abstracts peer trusted core (.new role ip key cert) ⟨.early, [], true, false, false, false⟩ := by
  constructor
  case stage => rfl
  case out => rfl
  case writer => exact Or.inl rfl
  case info =>
    intro info hinfo
    cases hinfo
  case threads => simp [new]
  case trust => simp [htrust]

/-- What an event that reads no message does to a party; `out` is what it has not read. -/
inductive LocalMove (trusted : Bool) (out : List Msg) (event : SessionEvent) (P : Party) : Party → Prop
  | idle : LocalMove trusted out event P P
  | enter (hstage : P.stage = .early) (htrust : trusted = false) :
    LocalMove trusted out event P { P.send [.begin] with stage := .loop false false }
  | pass (hstage : P.stage = .early) (htrust : trusted = true) :
    LocalMove trusted out event P { P with stage := .through }
  | confirm (mine theirs : Bool) (hstage : P.stage = .loop mine theirs) :
    LocalMove trusted out event P { P.send [.confirm] with stage := .settle true theirs, confirmed := true }
  | cancel (mine theirs : Bool) (hstage : P.stage = .loop mine theirs) :
    LocalMove trusted out event P { P.send [.cancel] with stage := .failed, cancelled := true }
  | data (n : ℕ) (hstage : P.stage = .through) : LocalMove trusted out event P (P.send (List.replicate n .data))
  | close (err : Error) (hevent : event = .closed err) (hstage : P.stage.waiting = true) :
    LocalMove trusted out event P (P.close out)
  | lose (hevent : event = .writerDied) : LocalMove trusted out event P { P with writer := false, out := [] }

theorem filterMap_replicate {msgs : List ControlMsg} (h : ∀ msg ∈ msgs, msg.abs = some .data) :
    msgs.filterMap ControlMsg.abs = List.replicate msgs.length .data := by
  induction msgs with
  | nil => rfl
  | cons msg msgs ih =>
    rw [List.filterMap_cons_some (h msg List.mem_cons_self), ih fun m hm => h m (List.mem_cons_of_mem _ hm)]
    rfl

/-- A party that is through and stays so, and what its session sends. -/
theorem Abstracts.through {core' : AppCore x} {s' : Session} (h : Abstracts peer trusted core s P)
    (hthrough : P.stage = .through) (hsaid : SaysData s s') (hphase : s'.phase.Abs .through)
    (hpaired : s'.phase.isPaired = s.phase.isPaired) (htrust : core'.trust = core.trust)
    (hinfo : ∀ info, s'.phase.info? = some info → s.phase.info? = some info) :
    ∃ n, Abstracts peer trusted core' s' (P.send (List.replicate n .data)) := by
  obtain ⟨msgs, hout, hok, hnone, hwriter⟩ := hsaid
  refine ⟨msgs.length, ?_⟩
  constructor
  case stage => exact hthrough ▸ hphase
  case out =>
    rw [hout, List.filterMap_append, filterMap_replicate hok, ← h.out]
    unfold Party.send
    dsimp only
    split_ifs with hP
    · rfl
    · -- a dead writer sends nothing
      have hdead : s.writer = false := by
        rcases h.writer with heq | ⟨-, heq⟩
        · rw [← heq]
          simpa using hP
        · exact absurd heq hP
      simp [hnone hdead]
  case writer =>
    rw [hwriter]
    exact h.writer
  case info => exact fun info hs' => h.info info (hinfo info hs')
  case threads => exact fun _ => hthrough
  case trust => rw [htrust, hpaired, h.trust]; rfl

theorem Abstracts.follows {core' : AppCore x} {s' : Session} {info : DeviceInfo} (h : Abstracts peer trusted core s P)
    (hthrough : P.stage = .through) (hsaid : SaysData s s') (hinfo : s.phase.info? = some info)
    (hpaired : s.phase.isPaired = false) (hphase : Phase.Follows info s'.phase) (htrust : core'.trust = core.trust) :
    ∃ n, Abstracts peer trusted core' s' (P.send (List.replicate n .data)) := by
  obtain ⟨habs, hnotpaired, hinfo'⟩ := hphase.facts
  exact h.through hthrough hsaid habs (hnotpaired.trans hpaired.symm) htrust
    fun info' hi => (hinfo' info' hi) ▸ hinfo

theorem follows_wire (core : AppCore x) (s : Session) (info : DeviceInfo) (epoch : BitVec 64) (desktop : Rect)
    (err : Option Error) : Phase.Follows info (Session.wire core s info epoch desktop err).2.phase := by
  unfold Session.wire
  dsimp only
  split
  · exact .running
  · split
    · exact .failed _
    · exact .running

theorem follows_runningRecv (core : AppCore x) (s : Session) (info : DeviceInfo) (msg : ControlMsg)
    (hs : s.phase = .running info) : Phase.Follows info (runningRecv core s info msg).2.phase := by
  have hphase := phase_handleInbound (mirrorInbound core s info msg).1 (mirrorInbound core s info msg).2 info msg
  rw [phase_mirrorInbound, hs] at hphase
  unfold runningRecv
  dsimp only
  split
  · rw [hphase]
    exact .running
  · exact .closing _ nofun

theorem follows_runningCmd (core : AppCore x) (s : Session) (info : DeviceInfo) (cmd : SessionCmd)
    (epoch : BitVec 64) (hs : s.phase = .running info) :
    Phase.Follows info (runningCmd core s info cmd epoch).2.phase := by
  rcases phase_runningCmd core s info cmd epoch with hp | hp
  · rw [hp, hs]
    exact .running
  · rw [hp]
    exact .closing _ nofun

theorem follows_tick (s : Session) (info : DeviceInfo) (hs : s.phase = .running info) :
    Phase.Follows info (s.tick info).phase := by
  unfold tick
  dsimp only
  split_ifs
  · exact .closing _ nofun
  · have hrunning : Phase.Follows info s.phase := by
      rw [hs]
      exact .running
    exact hrunning

theorem out_send {msg : ControlMsg} {m : Msg} (hout : P.out = s.out.filterMap ControlMsg.abs)
    (hwriter : P.writer = s.writer) (hmsg : msg.abs = some m) :
    (P.send [m]).out = (s.send msg).out.filterMap ControlMsg.abs := by
  unfold Party.send Session.send
  dsimp only
  rw [hwriter]
  split_ifs
  · rw [List.filterMap_append, hout]
    simp [hmsg]
  · exact hout

theorem abs_afterSelect (info : DeviceInfo) (st : PairingState) :
    (afterSelect info st).Abs (.settle st.localConfirmed st.remoteConfirmed) := by
  unfold afterSelect Stage.settle
  cases hcomplete : st.isComplete with
  | true =>
    rw [PairingState.isComplete] at hcomplete
    rw [if_pos rfl, if_pos hcomplete]
    rfl
  | false =>
    rw [if_neg Bool.false_ne_true]
    refine ⟨?_, hcomplete⟩
    rw [PairingState.isComplete] at hcomplete
    rw [hcomplete, if_neg Bool.false_ne_true]

theorem isPaired_afterSelect (info : DeviceInfo) (st : PairingState) (stage : Stage)
    (h : (afterSelect info st).Abs stage) :
    decide (stage = .through ∧ (afterSelect info st).isPaired = false) = false := by
  unfold afterSelect at h ⊢
  split_ifs at h ⊢
  · simp [Phase.isPaired]
  · simp [show stage = _ from h.1]

theorem info?_afterSelect (info : DeviceInfo) (st : PairingState) : (afterSelect info st).info? = some info := by
  unfold afterSelect
  split_ifs <;> rfl

theorem Abstracts.writer_eq (h : Abstracts peer trusted core s P) (hne : P.stage ≠ .through) : P.writer = s.writer :=
  h.writer.resolve_right fun hthrough => hne hthrough.1

theorem out_sayHello (s : Session) (core : AppCore x) :
    (s.sayHello core).out.filterMap ControlMsg.abs = s.out.filterMap ControlMsg.abs := by
  unfold sayHello Session.send
  dsimp only
  split_ifs
  · rw [List.filterMap_append]
    simp [ControlMsg.abs]
  · rfl

theorem confirms_eq_false (h : ∀ info st, s.phase ≠ .pairing info st) : s.confirms event = false := by
  unfold confirms
  split
  case h_1 info st hs => exact absurd hs (h info st)
  case h_2 => rfl

theorem cancels_eq_false (h : ∀ info st, s.phase ≠ .pairing info st) : s.cancels event = false := by
  unfold cancels
  split
  case h_1 info st hs | h_2 info st hs => exact absurd hs (h info st)
  case h_3 => rfl

theorem misses_eq_false (h : ∀ info st, s.phase ≠ .pairing info st) : s.misses event unread = false := by
  unfold misses
  split
  case h_1 info st hs => exact absurd hs (h info st)
  case h_2 => rfl

theorem mem_abs_confirm : (∃ msg ∈ unread, msg.abs = some .confirm) ↔ ControlMsg.pairConfirm ∈ unread := by
  constructor
  · rintro ⟨msg, hmem, habs⟩
    cases msg <;> cases habs
    exact hmem
  · exact fun hmem => ⟨_, hmem, rfl⟩

/-- The party's history goes on with what happens in the loop. -/
def Records (s : Session) (event : SessionEvent) (unread : List ControlMsg) (P P' : Party) : Prop :=
  P'.confirmed = (P.confirmed || s.confirms event) ∧ P'.cancelled = (P.cancelled || s.cancels event) ∧
    P'.lost = (P.lost || s.misses event unread)

theorem records_outside {P' : Party} (h : ∀ info st, s.phase ≠ .pairing info st)
    (hsame : P'.confirmed = P.confirmed ∧ P'.cancelled = P.cancelled ∧ P'.lost = P.lost) :
    Records s event unread P P' := by
  rw [Records, confirms_eq_false h, cancels_eq_false h, misses_eq_false h, Bool.or_false, Bool.or_false, Bool.or_false]
  exact hsame

theorem records_quiet {P' : Party} (hevent : event.recorded = false)
    (hsame : P'.confirmed = P.confirmed ∧ P'.cancelled = P.cancelled ∧ P'.lost = P.lost) :
    Records s event unread P P' := by
  have hconfirms : s.confirms event = false := by
    unfold confirms
    split
    case h_1 => cases hevent
    case h_2 => rfl
  have hcancels : s.cancels event = false := by
    unfold cancels
    split
    case h_1 | h_2 => cases hevent
    case h_3 => rfl
  have hmisses : s.misses event unread = false := by
    unfold misses
    split
    case h_1 => cases hevent
    case h_2 => rfl
  rw [Records, hconfirms, hcancels, hmisses, Bool.or_false, Bool.or_false, Bool.or_false]
  exact hsame

theorem Abstracts.fail (h : Abstracts peer trusted core s P) (hne : P.stage ≠ .through) {core' : AppCore x}
    {s' : Session} {P' : Party} {err : SessionError} (hphase : s'.phase = .ended (some err))
    (hstage : P'.stage.waiting = false ∧ P'.stage ≠ .through)
    (herr : ∀ got, err = .unexpectedDuringPairing got → P'.stage = .broken)
    (hout : P'.out = s'.out.filterMap ControlMsg.abs) (hwriter : P'.writer = s'.writer)
    (hthreads : s'.host = s.host ∧ s'.clip = s.clip) (htrust : core'.trust = core.trust) :
    Abstracts peer trusted core' s' P' := by
  constructor
  case stage =>
    rw [hphase]
    exact ⟨hstage.1, fun got heq => herr got (Option.some.inj heq)⟩
  case out => exact hout
  case writer => exact Or.inl hwriter
  case info =>
    intro info hinfo
    rw [hphase] at hinfo
    cases hinfo
  case threads =>
    rw [hthreads.1, hthreads.2]
    exact fun hlive => absurd (h.threads hlive) hne
  case trust =>
    rw [htrust, h.trust, decide_eq_false (fun hthrough => hne hthrough.1),
      decide_eq_false (fun hthrough => hstage.2 hthrough.1)]

theorem Abstracts.afterSelect (h : Abstracts peer trusted core s P) {info : DeviceInfo} {st : PairingState}
    (hs : s.phase = .pairing info st) (st' : PairingState) :
    (afterSelect info st').Abs (.settle st'.localConfirmed st'.remoteConfirmed) ∧
      (∀ info', (Session.afterSelect info st').info? = some info' → info'.id.id = peer) ∧
      core.trust.isTrusted peer = (trusted || decide (Stage.settle st'.localConfirmed st'.remoteConfirmed = .through ∧
        (Session.afterSelect info st').isPaired = false)) := by
  obtain ⟨hstage, -⟩ : P.stage = .loop st.localConfirmed st.remoteConfirmed ∧ st.isComplete = false := by
    simpa [hs, Phase.Abs] using h.stage
  refine ⟨abs_afterSelect info st', fun info' hinfo' => ?_, ?_⟩
  · rw [info?_afterSelect] at hinfo'
    exact Option.some.inj hinfo' ▸ h.info info (by rw [hs]; rfl)
  · rw [isPaired_afterSelect info st' _ (abs_afterSelect info st'), Bool.or_false, h.trust]
    simp [hstage]

/-- The event moves the session as the party can move. -/
def LocallyMoved (peer : String) (trusted : Bool) (unread : List ControlMsg) (s : Session) (event : SessionEvent)
    (P : Party) (p : AppCore x × Session) : Prop :=
  ∃ P', LocalMove trusted (unread.filterMap ControlMsg.abs) event P P' ∧ Abstracts peer trusted p.1 p.2 P' ∧
    Records s event unread P P'

theorem Abstracts.early_closed (h : Abstracts peer trusted core s P) (hs : s.phase = .start ∨ s.phase = .hello)
    (err : Error) : LocallyMoved peer trusted unread s (.closed err) P (core, s.fail (.failed err)) := by
  have hstage : P.stage = .early := by
    rcases hs with hs | hs <;> simpa [hs, Phase.Abs] using h.stage
  have hne : P.stage ≠ .through := by simp [hstage]
  refine ⟨_, .close err rfl (by rw [hstage]; rfl), h.fail hne rfl ⟨rfl, nofun⟩ nofun h.out (h.writer_eq hne)
    ⟨rfl, rfl⟩ rfl, records_outside ?_ ⟨rfl, rfl, by simp [Party.close, hstage, Stage.misses]⟩⟩
  rcases hs with hs | hs <;> simp [hs]

theorem Abstracts.checkTrust {info : DeviceInfo} (h : Abstracts peer trusted core s P) (hs : s.phase = .gate info) :
    LocallyMoved peer trusted unread s .checkTrust P (Session.checkTrust core s info) := by
  have hstage : P.stage = .early := by simpa [hs, Phase.Abs] using h.stage
  have hne : P.stage ≠ .through := by simp [hstage]
  have hpeer : info.id.id = peer := h.info info (by rw [hs]; rfl)
  have htrust : core.trust.isTrusted peer = trusted := by simp [h.trust, hstage]
  unfold Session.checkTrust
  rw [hpeer, htrust]
  cases trusted with
  | true =>
    refine ⟨_, .pass hstage rfl, ⟨rfl, h.out, Or.inl (h.writer_eq hne), ?_, fun _ => rfl, ?_⟩,
      records_quiet rfl ⟨rfl, rfl, rfl⟩⟩
    · rintro _ ⟨⟩
      exact hpeer
    · exact htrust.trans (by simp)
  | false =>
    refine ⟨_, .enter hstage rfl, ⟨⟨rfl, rfl⟩, out_send h.out (h.writer_eq hne) rfl, Or.inl (h.writer_eq hne),
      ?_, ?_, ?_⟩, records_quiet rfl ⟨rfl, rfl, rfl⟩⟩
    · rintro _ ⟨⟩
      exact hpeer
    · exact fun hlive => absurd (h.threads hlive) hne
    · exact htrust.trans (by simp)

theorem Abstracts.pairingClosed {info : DeviceInfo} {st : PairingState} (h : Abstracts peer trusted core s P)
    (hs : s.phase = .pairing info st) (err : Error) :
    LocallyMoved peer trusted unread s (.closed err) P (core, s.fail .closedDuringPairing) := by
  obtain ⟨hstage, hopen⟩ : P.stage = .loop st.localConfirmed st.remoteConfirmed ∧ st.isComplete = false := by
    simpa [hs, Phase.Abs] using h.stage
  have hne : P.stage ≠ .through := by simp [hstage]
  refine ⟨_, .close err rfl (by rw [hstage]; rfl), h.fail hne rfl ⟨rfl, nofun⟩ nofun h.out (h.writer_eq hne)
    ⟨rfl, rfl⟩ rfl, ?_⟩
  simp [Records, confirms, cancels, misses, hs, hstage, Party.close, Stage.misses, mem_abs_confirm]

theorem Abstracts.pairingCmd {info : DeviceInfo} {st : PairingState} (h : Abstracts peer trusted core s P)
    (hs : s.phase = .pairing info st) (cmd : SessionCmd) (epoch : BitVec 64) :
    LocallyMoved peer trusted unread s (.cmd cmd epoch) P (Session.pairingCmd core s info st cmd) := by
  obtain ⟨hstage, hopen⟩ : P.stage = .loop st.localConfirmed st.remoteConfirmed ∧ st.isComplete = false := by
    simpa [hs, Phase.Abs] using h.stage
  have hne : P.stage ≠ .through := by simp [hstage]
  have hthreads : ∀ stage, s.host.isSome = true ∨ s.clip = true → stage = Stage.through :=
    fun _ hlive => absurd (h.threads hlive) hne
  have hafter := h.afterSelect hs
  cases cmd with
  | confirm =>
    obtain ⟨habs, hinfo, htrust'⟩ := hafter st.confirmLocal
    refine ⟨_, .confirm _ _ hstage, ⟨habs, out_send h.out (h.writer_eq hne) rfl, Or.inl (h.writer_eq hne), hinfo,
      hthreads _, htrust'⟩, ?_⟩
    simp [Records, confirms, cancels, misses, hs, Party.send]
  | cancel =>
    refine ⟨_, .cancel _ _ hstage, h.fail hne rfl ⟨rfl, nofun⟩ nofun (out_send h.out (h.writer_eq hne) rfl)
      (h.writer_eq hne) ⟨rfl, rfl⟩ rfl, ?_⟩
    simp [Records, confirms, cancels, misses, hs, Party.send]
  | disconnect =>
    refine ⟨_, .cancel _ _ hstage, h.fail hne rfl ⟨rfl, nofun⟩ nofun (out_send h.out (h.writer_eq hne) rfl)
      (h.writer_eq hne) ⟨rfl, rfl⟩ rfl, ?_⟩
    simp [Records, confirms, cancels, misses, hs, Party.send]
  | _ =>
    have hsame : Session.afterSelect info st = s.phase := by
      rw [hs, Session.afterSelect, hopen, if_neg Bool.false_ne_true]
    have habs : (Session.afterSelect info st).Abs P.stage := by
      rw [hsame]
      exact h.stage
    have htrust' : core.trust.isTrusted peer =
        (trusted || decide (P.stage = .through ∧ (Session.afterSelect info st).isPaired = false)) := by
      rw [hsame]
      exact h.trust
    exact ⟨P, .idle, ⟨habs, h.out, h.writer, (hafter st).2.1, h.threads, htrust'⟩,
      by simp [Records, confirms, cancels, misses]⟩

theorem Abstracts.store {info : DeviceInfo} (h : Abstracts peer trusted core s P) (hs : s.phase = .paired info)
    (err : Option Error) : LocallyMoved peer trusted unread s (.store err) P (Session.store core s info err) := by
  have hthrough : P.stage = .through := by simpa [hs, Phase.Abs] using h.stage
  have hpeer : info.id.id = peer := h.info info (by rw [hs]; rfl)
  have htrust : (core.trust.trust info.id.id info.name).isTrusted peer = true := by
    rw [TrustStore.isTrusted_trust, hpeer]
    simp
  have hpaired : true = (trusted || decide (P.stage = .through ∧ false = false)) := by simp [hthrough]
  cases err with
  | none =>
    refine ⟨P, .idle, ⟨hthrough, h.out, h.writer, ?_, h.threads, htrust.trans hpaired⟩,
      records_quiet rfl ⟨rfl, rfl, rfl⟩⟩
    rintro _ ⟨⟩
    exact hpeer
  | some err =>
    exact ⟨P, .idle, ⟨⟨by rw [hthrough]; rfl, nofun⟩, h.out, h.writer, nofun, h.threads, htrust.trans hpaired⟩,
      records_quiet rfl ⟨rfl, rfl, rfl⟩⟩

theorem Abstracts.teardown {info : DeviceInfo} {result : Option SessionError} (h : Abstracts peer trusted core s P)
    (hs : s.phase = .closing info result) :
    LocallyMoved peer trusted unread s .teardown P (Session.teardown core s info result) := by
  obtain ⟨hthrough, hresult⟩ : P.stage = .through ∧ ∀ got, result ≠ some (.unexpectedDuringPairing got) := by
    simpa [hs, Phase.Abs] using h.stage
  refine ⟨P, .idle, ⟨⟨by rw [hthrough]; rfl, fun got heq => absurd heq (hresult got)⟩, h.out, ?_, nofun,
    fun _ => hthrough, ?_⟩, records_quiet rfl ⟨rfl, rfl, rfl⟩⟩
  · cases hwriter : P.writer
    · exact Or.inl rfl
    · exact Or.inr ⟨hthrough, rfl⟩
  · apply h.trust.trans
    rw [hs]
    rfl

theorem Abstracts.sends {s' : Session} {core' : AppCore x} (h : Abstracts peer trusted core s P)
    (hthrough : P.stage = .through) (hsaid : SaysData s s') (hphase : s'.phase = s.phase)
    (htrust : core'.trust = core.trust) (hrecords : ∀ n, Records s event unread P (P.send (List.replicate n .data))) :
    LocallyMoved peer trusted unread s event P (core', s') := by
  obtain ⟨n, habs⟩ := h.through hthrough hsaid (by rw [hphase, ← hthrough]; exact h.stage) (by rw [hphase]) htrust
    (by rw [hphase]; exact fun _ h => h)
  exact ⟨_, .data n hthrough, habs, hrecords n⟩

/-- An event that reads no message moves the session as the party moves. -/
theorem abstracts_local (unread : List ControlMsg) (h : Abstracts peer trusted core s P)
    (hstep : s.step ar core event = some p) (hrecv : ∀ msg, event ≠ .recv msg) (hcmd : event ≠ .cmdClosed) :
    LocallyMoved peer trusted unread s event P p := by
  cases steps_of_step hstep with
  | recvHello msg hs => exact absurd rfl (hrecv msg)
  | pairingRecv info st msg hs => exact absurd rfl (hrecv msg)
  | runningRecv info msg hs => exact absurd rfl (hrecv msg)
  | pairingCmdClosed info st hs => exact absurd rfl hcmd
  | runningCmdClosed info hs => exact absurd rfl hcmd
  | sayHello hs =>
    have hstage : P.stage = .early := by simpa [hs, Phase.Abs] using h.stage
    refine ⟨P, .idle, ⟨hstage, ?_, h.writer, nofun, h.threads, ?_⟩, records_quiet rfl ⟨rfl, rfl, rfl⟩⟩
    · rw [out_sayHello]
      exact h.out
    · rw [h.trust]
      simp [hstage]
  | startClosed err hs => exact h.early_closed (Or.inl hs) err
  | helloClosed err hs => exact h.early_closed (Or.inr hs) err
  | setSlot info hs =>
    have hstage : P.stage = .early := by simpa [hs, Phase.Abs] using h.stage
    refine ⟨P, .idle, ⟨hstage, h.out, h.writer, ?_, h.threads, ?_⟩, records_quiet rfl ⟨rfl, rfl, rfl⟩⟩
    · rintro _ ⟨⟩
      exact h.info info (by rw [hs]; rfl)
    · rw [h.trust]
      simp [hstage]
  | checkTrust info hs => exact h.checkTrust hs
  | pairingClosed info st err hs => exact h.pairingClosed hs err
  | pairingCmd info st cmd epoch hs => exact h.pairingCmd hs cmd epoch
  | store info err hs => exact h.store hs err
  | wire info epoch desktop err hs =>
    have hthrough : P.stage = .through := by simpa [hs, Phase.Abs] using h.stage
    obtain ⟨n, habs⟩ := h.follows hthrough (saysData_wire core s info epoch desktop err) (by rw [hs]; rfl)
      (by rw [hs]; rfl) (follows_wire core s info epoch desktop err) (wire_frame core s info epoch desktop err).trust
    exact ⟨_, .data n hthrough, habs, records_quiet rfl ⟨rfl, rfl, rfl⟩⟩
  | runningClosed info err hs =>
    have hthrough : P.stage = .through := by simpa [hs, Phase.Abs] using h.stage
    obtain ⟨n, habs⟩ := h.follows hthrough (says_same rfl rfl : SaysData s { s with phase := .closing info none })
      (by rw [hs]; rfl) (by rw [hs]; rfl) (.closing none nofun) rfl
    exact ⟨_, .data n hthrough, habs, records_outside (by simp [hs]) ⟨rfl, rfl, rfl⟩⟩
  | runningCmd info cmd epoch hs =>
    have hthrough : P.stage = .through := by simpa [hs, Phase.Abs] using h.stage
    obtain ⟨n, habs⟩ := h.follows hthrough (saysData_runningCmd core s info cmd epoch) (by rw [hs]; rfl)
      (by rw [hs]; rfl) (follows_runningCmd core s info cmd epoch hs) (runningCmd_frame core s info cmd epoch).trust
    exact ⟨_, .data n hthrough, habs, records_outside (by simp [hs]) ⟨rfl, rfl, rfl⟩⟩
  | tick info hs =>
    have hthrough : P.stage = .through := by simpa [hs, Phase.Abs] using h.stage
    obtain ⟨n, habs⟩ := h.follows hthrough (saysData_tick s info) (by rw [hs]; rfl) (by rw [hs]; rfl)
      (follows_tick s info hs) rfl
    exact ⟨_, .data n hthrough, habs, records_quiet rfl ⟨rfl, rfl, rfl⟩⟩
  | teardown info result hs => exact h.teardown hs
  | writerDied hslot =>
    exact ⟨_, .lose rfl, ⟨h.stage, rfl, Or.inl rfl, h.info, h.threads, h.trust⟩,
      records_quiet rfl ⟨rfl, rfl, rfl⟩⟩
  | host t edge captured edgeNow hhost hlive =>
    obtain ⟨events, out, heq⟩ := hostStep_eq ar core s t edge captured edgeNow
    have hphase : (hostStep ar core s t edge captured edgeNow).2.phase = s.phase := by rw [heq]
    exact h.sends (h.threads (Or.inl (by rw [hhost]; rfl))) (saysData_hostStep ar core s t edge captured edgeNow)
      hphase (hostStep_frame core s t edge captured edgeNow).trust fun n => records_quiet rfl ⟨rfl, rfl, rfl⟩
  | hostExit t hhost hstop =>
    have hthrough := h.threads (Or.inl (by rw [hhost]; rfl))
    exact ⟨P, .idle, ⟨h.stage, h.out, h.writer, h.info, fun _ => hthrough, h.trust⟩,
      records_quiet rfl ⟨rfl, rfl, rfl⟩⟩
  | sender i ev t t' ht hstep' =>
    exact ⟨P, .idle, ⟨h.stage, h.out, h.writer, h.info, h.threads, h.trust⟩, records_quiet rfl ⟨rfl, rfl, rfl⟩⟩
  | clipboard text hclip =>
    exact h.sends (h.threads (Or.inr hclip)) (saysData_send s (.clipboard (.text text)) rfl) rfl rfl
      fun n => records_quiet rfl ⟨rfl, rfl, rfl⟩
  | clipExit result hs =>
    refine ⟨P, .idle, ⟨h.stage, h.out, h.writer, h.info, fun hlive => h.threads ?_, h.trust⟩,
      records_quiet rfl ⟨rfl, rfl, rfl⟩⟩
    exact hlive.imp_right nofun

theorem abstracts_pairingRecv (h : Abstracts peer trusted core s P) {info : DeviceInfo} {st : PairingState}
    {msg : ControlMsg} {m : Msg} (hs : s.phase = .pairing info st) (hm : msg.abs = some m) :
    Abstracts peer trusted (pairingRecv core s info st msg).1 (pairingRecv core s info st msg).2
      { P with stage := P.stage.receive m } := by
  obtain ⟨hstage, -⟩ : P.stage = .loop st.localConfirmed st.remoteConfirmed ∧ st.isComplete = false := by
    simpa [hs, Phase.Abs] using h.stage
  have hne : P.stage ≠ .through := by simp [hstage]
  have hthreads : ∀ stage, s.host.isSome = true ∨ s.clip = true → stage = Stage.through :=
    fun _ hlive => absurd (h.threads hlive) hne
  have hwriter := h.writer_eq hne
  cases msg with
  | hello protocol info' => cases hm
  | pairBegin =>
    cases hm
    obtain ⟨habs, hinfo, htrust⟩ := h.afterSelect hs st
    rw [hstage]
    exact ⟨habs, h.out, Or.inl hwriter, hinfo, hthreads _, htrust⟩
  | pairConfirm =>
    cases hm
    obtain ⟨habs, hinfo, htrust⟩ := h.afterSelect hs st.confirmRemote
    rw [hstage]
    exact ⟨habs, h.out, Or.inl hwriter, hinfo, hthreads _, htrust⟩
  | pairCancel reason =>
    cases hm
    rw [hstage]
    exact h.fail hne rfl ⟨rfl, nofun⟩ nofun h.out hwriter ⟨rfl, rfl⟩ rfl
  | _ =>
    cases hm
    rw [hstage]
    exact h.fail hne rfl ⟨rfl, nofun⟩ (fun _ _ => rfl) h.out hwriter ⟨rfl, rfl⟩ rfl

/-- A message read: the Hello, something else in its place, or a message the party takes, perhaps with an answer. -/
theorem abstracts_recv {msg : ControlMsg} (h : Abstracts peer trusted core s P)
    (hstep : s.step ar core (.recv msg) = some p)
    (hhello : s.phase = .hello → ∀ v info, msg = .hello v info → v = PROTOCOL_VERSION ∧ info.id.id = peer)
    (hlater : s.phase ≠ .hello → msg.abs ≠ none) :
    (s.phase = .hello ∧ msg.abs = none ∧ Abstracts peer trusted p.1 p.2 P) ∨
      (s.phase = .hello ∧ msg.abs ≠ none ∧ P.stage = .early ∧
        Abstracts peer trusted p.1 p.2 { P with stage := .failed }) ∨
      ∃ m n, msg.abs = some m ∧ P.stage ≠ .early ∧ (n = 0 ∨ P.stage.receive m = .through) ∧
        Abstracts peer trusted p.1 p.2 ({ P with stage := P.stage.receive m }.send (List.replicate n .data)) := by
  cases steps_of_step hstep with
  | recvHello _ hs =>
    have hstage : P.stage = .early := by simpa [hs, Phase.Abs] using h.stage
    have hne : P.stage ≠ .through := by simp [hstage]
    cases msg with
    | hello protocol info =>
      obtain ⟨rfl, hpeer⟩ := hhello hs protocol info rfl
      refine Or.inl ⟨hs, rfl, ⟨hstage, h.out, h.writer, ?_, h.threads, ?_⟩⟩
      · rintro _ ⟨⟩
        exact hpeer
      · rw [h.trust]
        simp [hstage]
    | _ =>
      exact Or.inr (Or.inl ⟨hs, nofun, hstage,
        h.fail hne rfl ⟨rfl, nofun⟩ nofun h.out (h.writer_eq hne) ⟨rfl, rfl⟩ rfl⟩)
  | pairingRecv info st _ hs =>
    obtain ⟨m, hm⟩ := Option.ne_none_iff_exists'.mp (hlater (by rw [hs]; exact nofun))
    obtain ⟨hstage, -⟩ : P.stage = .loop st.localConfirmed st.remoteConfirmed ∧ st.isComplete = false := by
      simpa [hs, Phase.Abs] using h.stage
    refine Or.inr (Or.inr ⟨m, 0, hm, by simp [hstage], Or.inl rfl, ?_⟩)
    have habs := abstracts_pairingRecv h hs hm
    have hsend : ({ P with stage := P.stage.receive m }.send (List.replicate 0 .data)) =
        { P with stage := P.stage.receive m } := by simp [Party.send]
    rwa [hsend]
  | runningRecv info _ hs =>
    obtain ⟨m, hm⟩ := Option.ne_none_iff_exists'.mp (hlater (by rw [hs]; exact nofun))
    have hthrough : P.stage = .through := by simpa [hs, Phase.Abs] using h.stage
    have hsame : ({ P with stage := P.stage.receive m } : Party) = P := by
      rw [hthrough]
      cases P
      simp_all [Stage.receive]
    obtain ⟨n, habs⟩ := h.follows hthrough (saysData_runningRecv core s info msg) (by rw [hs]; rfl)
      (by rw [hs]; rfl) (follows_runningRecv core s info msg hs) (runningRecv_frame core s info msg).trust
    refine Or.inr (Or.inr ⟨m, n, hm, by simp [hthrough], Or.inr (by rw [hthrough]; rfl), ?_⟩)
    rwa [hsame]

end Session

end ScreenLink
