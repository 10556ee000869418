import ScreenLink.Session.Grammar
import ScreenLink.Session.Ping
import ScreenLink.Session.Route

/-!
# A connection that is whole

While the connection holds and neither end has left its main loop or failed, both writers are alive, no end has rejected
the other, and no ping has been lost (`Link.run_sound`).
-/

namespace ScreenLink

open Machine

/-- The session has left its main loop, or failed before. -/
def Phase.left : Phase → Bool
  | .closing _ _ | .ended _ => true
  | _ => false

namespace Phase

theorem left_of_moves {trusted : String → Bool} {p p' : Phase} {event : SessionEvent} (h : p.Moves trusted event p')
    (hp : p.left = true) : p'.left = true := by
  cases h with
  | thread p event hthread => exact hp
  | teardown info result => rfl
  | _ => cases hp

theorem left_of_finished {p : Phase} (h : p.finished = true) : p.left = true := by
  cases p with
  | ended result => rfl
  | _ => cases h

theorem left_of_ping {trusted : String → Bool} {p p' : Phase} {msg : ControlMsg} (h : p.Moves trusted (.recv msg) p')
    (hmsg : msg.ping?.isSome = true ∨ msg.pong?.isSome = true) (hp : p.isRunning = false) : p'.left = true := by
  cases h with
  | helloRefused msg err | pairingFailed info st event err | leave info event hloop result => rfl
  | greeted info | remoteBegin info st | remoteConfirm info st => simp [ControlMsg.ping?, ControlMsg.pong?] at hmsg
  | running info event hloop => cases hp
  | thread p event hthread => cases hthread

end Phase

def ControlMsg.isReject : ControlMsg → Bool
  | .reject _ => true
  | _ => false

namespace Session

variable {x : Crates} {ar : Arith} {core : AppCore x} {s : Session} {event : SessionEvent} {p : AppCore x × Session}

theorem accepted_threadMessages (x : Crates) (ar : Arith) (s : Session) (event : SessionEvent) :
    ∀ msg ∈ s.threadMessages x ar event, msg.isReject = false := by
  intro msg hmsg
  unfold threadMessages at hmsg
  split at hmsg
  case h_1 edge captured edgeNow =>
    obtain ⟨t, ht, hloop⟩ := List.mem_flatMap.mp hmsg
    obtain ⟨news, hout, hnews⟩ := hostIter_out (x := x) ar t.desktop t.input ⟨edge, false, captured, edgeNow⟩
    rw [loopMessages, hout, List.drop_left] at hloop
    obtain ⟨o, ho, hctrl⟩ := List.mem_filterMap.mp hloop
    cases o with
    | ctrl sent =>
      obtain rfl := Option.some.inj hctrl
      rcases hnews _ ho with hof | ⟨ev, packet, heq⟩
      · cases sent <;> first | rfl | exact hof.elim
      · cases heq
    | _ => cases hctrl
  case h_2 text => exact List.mem_singleton.mp hmsg ▸ rfl
  case h_3 => cases hmsg

theorem accepted_talks (s : Session) (event : SessionEvent) : ∀ msg ∈ s.talks event, msg.isReject = false := by
  intro msg hmsg
  have hdata := isData_talks s event msg hmsg
  cases msg with
  | reject reason => cases hdata
  | _ => rfl

theorem left_of_reject {msg : ControlMsg} (h : s.step ar core event = some p) (hmsg : msg ∈ s.messages ar core event)
    (hreject : msg.isReject = true) : p.2.phase.left = true := by
  rcases List.mem_append.mp hmsg with hsaid | hthread
  · rcases List.mem_append.mp hsaid with hgreets | htalks
    · unfold greets at hgreets
      split at hgreets
      case h_2 protocol info hs =>
        split_ifs at hgreets with hprotocol
        · cases hgreets
        · cases steps_of_step h with
          | recvHello msg' hhello => simp [recvHello, hprotocol, fail, Phase.left]
          | pairingRecv info' st msg' hpairing => cases hs.symm.trans hpairing
          | runningRecv info' msg' hrunning => cases hs.symm.trans hrunning
      case h_3 info hs =>
        split_ifs at hgreets
        · cases hgreets
        · cases List.mem_singleton.mp hgreets ▸ hreject
      case h_8 =>
        cases hrole : s.role with
        | controlled => simp [hrole] at hgreets
        | controller ip edge =>
          simp only [hrole, List.mem_cons, List.not_mem_nil, or_false] at hgreets
          rcases hgreets with rfl | rfl <;> cases hreject
      case h_9 => cases hgreets
      all_goals cases List.mem_singleton.mp hgreets ▸ hreject
    · cases (accepted_talks s event msg htalks).symm.trans hreject
  · cases (accepted_threadMessages x ar s event msg hthread).symm.trans hreject

end Session

namespace Link

variable {x : Crates} {ar : Arith} {l l' : Link x} {e : LinkEvent}

/-- The connection holds, and no end has left. -/
def Whole (l : Link x) : Prop := l.broken = false ∧ ∀ side, (l.session side).phase.left = false

/-- What holds of a connection that is whole: both writers are alive, no end has rejected the other, the slots are right,
and the pings that wait are on their way. -/
structure Sound (l : Link x) : Prop where
  slot : ∀ side, (l.session side).SlotOk
  writer : ∀ side, (l.session side).writer = true
  accepted : ∀ side, ∀ msg ∈ (l.session side).out, msg.isReject = false
  pings : PingsMatched l

theorem whole_of_step (h : step ar l e = some l') (hwhole : Whole l') : Whole l := by
  cases hacts : l.acts e with
  | none =>
    obtain ⟨-, rfl⟩ := eq_breaks_of_idle h hacts
    cases hwhole.1
  | some act =>
    obtain ⟨side, event⟩ := act
    obtain ⟨p, hp, -, hsession, -, hother, hbroken⟩ := step_of_acts h hacts
    refine ⟨hbroken ▸ hwhole.1, fun side' => ?_⟩
    have hafter := hwhole.2 side'
    rcases Side.eq_or_eq_other side side' with rfl | rfl
    · by_contra hleft
      rw [hsession, Phase.left_of_moves (Session.step_moves hp) (Bool.eq_true_of_not_eq_false hleft)] at hafter
      cases hafter
    · rwa [hother] at hafter

theorem sound_initial (core : Side → AppCore x) (ip : IpAddr) (edge : ScreenEdge) (peer : IpAddr) (key : SessionKey) :
    Sound (initial core ip edge peer key) := by
  refine ⟨fun side => ?_, fun side => ?_, fun side msg hmsg => ?_, fun side => ?_⟩
  · cases side <;> exact ⟨fun F hF => absurd hF (by simp [initial, Session.new, Phase.named?]), fun _ => rfl⟩
  · cases side <;> rfl
  · cases side <;> cases hmsg
  · cases side <;> rfl

theorem not_writerDied (h : step ar l e = some l') (hwhole : Whole l') {side : Side} {event : SessionEvent}
    (hacts : l.acts e = some (side, event)) : event ≠ .writerDied := by
  rintro rfl
  obtain ⟨hbroken, hleft⟩ := whole_of_step h hwhole
  rcases stream_of_acts h hacts rfl with ⟨msg, heq, -⟩ | ⟨err, heq, -⟩ | ⟨-, hgone | hgone⟩
  · cases heq
  · cases heq
  · cases hbroken.symm.trans hgone
  · cases (hleft side.other).symm.trans (Phase.left_of_finished hgone)

theorem not_loses (h : step ar l e = some l') (hwhole : Whole l') (hwriter : ∀ side, (l.session side).writer = true) :
    ¬ Loses l e := by
  rintro ⟨side, event, hacts, hlost⟩
  obtain ⟨p, hp, -, hsession, -, -, -⟩ := step_of_acts h hacts
  have hstays : ∀ msg, event = .recv msg → (msg.ping?.isSome = true ∨ msg.pong?.isSome = true) →
      (l.session side).phase.isRunning = true := by
    rintro msg rfl hmsg
    by_contra hrunning
    have hleft := Phase.left_of_ping (Session.step_moves hp) hmsg (Bool.eq_false_iff.mpr hrunning)
    rw [← hsession, hwhole.2 side] at hleft
    cases hleft
  cases event with
  | writerDied => exact not_writerDied h hwhole hacts rfl
  | tick => simp [Session.losesPing, Session.losesPong, hwriter side] at hlost
  | recv msg =>
    cases msg with
    | ping nonce => simp [Session.losesPing, Session.losesPong, hwriter side, hstays _ rfl (Or.inl rfl)] at hlost
    | pong nonce => simp [Session.losesPing, Session.losesPong, hstays _ rfl (Or.inr rfl)] at hlost
    | _ => cases hlost
  | _ => cases hlost

theorem step_sound (h : step ar l e = some l') (hwhole : Whole l') (hl : Sound l) : Sound l' := by
  have hpings := (step_pingsMatched h hl.pings).mpr (not_loses h hwhole hl.writer)
  cases hacts : l.acts e with
  | none =>
    obtain ⟨-, rfl⟩ := eq_breaks_of_idle h hacts
    exact ⟨hl.slot, hl.writer, hl.accepted, hpings⟩
  | some act =>
    obtain ⟨side, event⟩ := act
    obtain ⟨p, hp, -, hsession, -, hother, -⟩ := step_of_acts h hacts
    obtain ⟨hout, hwriter⟩ := Session.step_messages hp (not_writerDied h hwhole hacts)
    refine ⟨fun side' => ?_, fun side' => ?_, fun side' msg hmsg => ?_, hpings⟩
    · rcases Side.eq_or_eq_other side side' with rfl | rfl
      · rw [hsession]
        exact Session.step_slotOk hp (hl.slot _)
      · rw [hother]
        exact ⟨(hl.slot side.other).named, (hl.slot side.other).unnamed⟩
    · rcases Side.eq_or_eq_other side side' with rfl | rfl
      · rw [hsession]
        rcases hwriter with hwriter | ⟨rfl, -⟩
        · exact hwriter.trans (hl.writer _)
        · have hleft := hwhole.2 side'
          cases Session.steps_of_step hp with
          | teardown info result hs =>
            rw [hsession] at hleft
            cases hleft
      · rw [hother]
        exact hl.writer _
    · rcases Side.eq_or_eq_other side side' with rfl | rfl
      · rw [hsession, hout, if_pos (hl.writer _)] at hmsg
        rcases List.mem_append.mp hmsg with hold | hnew
        · exact hl.accepted _ msg hold
        · by_contra hreject
          have hleft := Session.left_of_reject hp hnew (Bool.eq_true_of_not_eq_false hreject)
          rw [← hsession, hwhole.2 side'] at hleft
          cases hleft
      · rw [hother] at hmsg
        refine hl.accepted side.other msg ?_
        unfold outAfter at hmsg
        cases event with
        | recv got => exact List.mem_of_mem_tail hmsg
        | _ => exact hmsg

/-- In every run of the two ends, as long as the connection is whole. -/
theorem run_sound {core : Side → AppCore x} {ip peer : IpAddr} {edge : ScreenEdge} {key : SessionKey}
    {es : List LinkEvent} (hrun : run (step ar) (initial core ip edge peer key) es = some l) (hwhole : Whole l) :
    Sound l :=
  run_invariant (P := fun l : Link x => Whole l → Sound l) (fun _ => sound_initial core ip edge peer key)
    (fun _ _ _ ih hstep hwhole => step_sound hstep hwhole (ih (whole_of_step hstep hwhole))) es l hrun hwhole

end Link

end ScreenLink
