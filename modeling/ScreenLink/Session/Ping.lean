import ScreenLink.Lib.RoundTrip
import ScreenLink.Session.Events
import ScreenLink.Session.Inbound
import ScreenLink.Session.Messages
import ScreenLink.Session.Nonces

/-!
# Pings

A session pings its peer at every tick, keeps the nonces that have not come back, and shows a round-trip time for each
that does. Between two ends the nonces on their way are those that wait, in order, as long as no writer dies and nothing
is read outside a main loop (`Link.pings_matched_iff`). Whatever the peers of a process send, the samples shown and the
pings that wait are together the pings sent (`Node.samples_accounted`).
-/

namespace ScreenLink

namespace ControlMsg

def ping? : ControlMsg → Option (BitVec 64)
  | .ping nonce => some nonce
  | _ => none

def pong? : ControlMsg → Option (BitVec 64)
  | .pong nonce => some nonce
  | _ => none

end ControlMsg

theorem Phase.exists_of_isRunning {phase : Phase} (h : phase.isRunning = true) : ∃ info, phase = .running info := by
  cases phase with
  | running info => exact ⟨info, rfl⟩
  | _ => cases h

namespace Session

variable {x : Crates} {ar : Arith} {core : AppCore x} {s : Session} {event : SessionEvent} {p : AppCore x × Session}

/-- The nonces that wait for their pong after the event. -/
def unanswered (s : Session) (event : SessionEvent) : List (BitVec 64) :=
  match s.phase, event with
  | .running _, .tick => s.pingSent ++ [s.pingNonce + 1]
  | .running _, .recv (.pong nonce) => s.pingSent.erase nonce
  | _, _ => s.pingSent

theorem pingSent_mirrorInbound (core : AppCore x) (s : Session) (info : DeviceInfo) (msg : ControlMsg) :
    (mirrorInbound core s info msg).2.pingSent = s.pingSent := by
  have htake : s.takeReceiver.pingSent = s.pingSent := s.takeReceiver_queue.2.2.2.1
  cases msg with
  | startMirror epoch => exact htake
  | stopMirror => exact htake
  | _ => rfl

theorem pingSent_handleInbound (core : AppCore x) (s : Session) (info : DeviceInfo) (msg : ControlMsg) :
    (handleInbound core s info msg).2.1.pingSent = match msg with
      | .pong nonce => s.pingSent.erase nonce
      | _ => s.pingSent := by
  unfold handleInbound
  cases msg with
  | setMode mode | realtimeOpen port epoch | edgeEnter px py =>
    dsimp only
    cases s.role <;> rfl
  | pong nonce =>
    dsimp only
    split_ifs with hmem
    · rfl
    · exact (List.erase_of_not_mem hmem).symm
  | clipboard data =>
    cases data
    rfl
  | _ => rfl

theorem pingSent_runningRecv (core : AppCore x) {info : DeviceInfo} (hs : s.phase = .running info) (msg : ControlMsg) :
    (runningRecv core s info msg).2.pingSent = s.unanswered (.recv msg) := by
  have hinbound := pingSent_handleInbound (mirrorInbound core s info msg).1 (mirrorInbound core s info msg).2 info msg
  rw [pingSent_mirrorInbound] at hinbound
  unfold unanswered
  rw [hs]
  unfold runningRecv
  dsimp only
  split <;> cases msg <;> exact hinbound

theorem step_pingSent (h : s.step ar core event = some p) : p.2.pingSent = s.unanswered event := by
  have hsame : s.unanswered event = s.pingSent → p.2.pingSent = s.pingSent → p.2.pingSent = s.unanswered event :=
    fun hwaits hsent => hsent.trans hwaits.symm
  cases steps_of_step h with
  | runningRecv info msg hs => exact pingSent_runningRecv core hs msg
  | tick info hs =>
    have hwaits : s.unanswered .tick = s.pingSent ++ [s.pingNonce + 1] := by simp [unanswered, hs]
    rw [hwaits]
    unfold tick
    dsimp only
    split_ifs <;> rfl
  | recvHello msg hs =>
    refine hsame (by simp [unanswered, hs]) ?_
    unfold recvHello
    split
    · split_ifs <;> rfl
    · rfl
  | checkTrust info hs =>
    refine hsame (by simp [unanswered, hs]) ?_
    unfold checkTrust
    split_ifs <;> rfl
  | pairingRecv info st msg hs =>
    refine hsame (by simp [unanswered, hs]) ?_
    cases msg <;> rfl
  | pairingCmd info st cmd epoch hs =>
    refine hsame (by simp [unanswered, hs]) ?_
    cases cmd <;> rfl
  | store info err hs =>
    refine hsame (by simp [unanswered, hs]) ?_
    cases err <;> rfl
  | wire info epoch desktop err hs =>
    refine hsame (by simp [unanswered, hs]) ?_
    unfold wire
    dsimp only
    split
    · rfl
    · split <;> rfl
  | runningCmd info cmd epoch hs =>
    refine hsame (by simp [unanswered, hs]) ?_
    cases cmd with
    | startMirror =>
      unfold runningCmd
      cases s.mirrorTx with
      | some i => rfl
      | none => cases s.writer <;> rfl
    | stopMirror =>
      unfold runningCmd
      cases s.mirrorTx <;> rfl
    | _ => rfl
  | host t edge captured edgeNow hhost hlive =>
    obtain ⟨events, out, heq⟩ := hostStep_eq ar core s t edge captured edgeNow
    refine hsame (by simp [unanswered]) ?_
    rw [heq]
  | sayHello hs | startClosed err hs | helloClosed err hs | setSlot info hs | pairingClosed info st err hs
  | pairingCmdClosed info st hs | runningClosed info err hs | runningCmdClosed info hs | teardown info result hs
  | clipExit result hs => exact hsame (by simp [unanswered, hs]) rfl
  | writerDied hslot => exact hsame (by simp [unanswered]) rfl
  | hostExit t hhost hstop => exact hsame (by simp [unanswered]) rfl
  | sender i ev t t' ht hstep => exact hsame (by simp [unanswered]) rfl
  | clipboard text hclip => exact hsame (by simp [unanswered]) rfl

/-! ### What is sent -/

/-- The pings of a step. -/
def asked (s : Session) (event : SessionEvent) : List (BitVec 64) :=
  match s.phase, event with
  | .running _, .tick => [s.pingNonce + 1]
  | _, _ => []

/-- The pongs of a step. -/
def answered (s : Session) (event : SessionEvent) : List (BitVec 64) :=
  match s.phase, event with
  | .running _, .recv (.ping nonce) => [nonce]
  | _, _ => []

theorem threadMessages_quiet (x : Crates) (ar : Arith) (s : Session) (event : SessionEvent) :
    ∀ msg ∈ s.threadMessages x ar event, msg.ping? = none ∧ msg.pong? = none := by
  intro msg hmsg
  unfold threadMessages at hmsg
  split at hmsg
  case h_1 edge captured edgeNow =>
    obtain ⟨t, ht, hloop⟩ := List.mem_flatMap.mp hmsg
    obtain ⟨news, hout, hnews⟩ := hostIter_out (x := x) ar t.desktop t.input ⟨edge, false, captured, edgeNow⟩
    rw [loopMessages, hout, List.drop_left] at hloop
    obtain ⟨o, ho, hctrl⟩ := List.mem_filterMap.mp hloop
    rcases hnews o ho with hof | ⟨ev, packet, rfl⟩
    · cases o with
      | ctrl sent =>
        obtain rfl := Option.some.inj hctrl
        cases sent <;> first | exact ⟨rfl, rfl⟩ | exact hof.elim
      | _ => cases hctrl
    · cases hctrl
  case h_2 text => exact List.mem_singleton.mp hmsg ▸ ⟨rfl, rfl⟩
  case h_3 => cases hmsg

theorem greets_quiet (core : AppCore x) (s : Session) (event : SessionEvent) :
    ∀ msg ∈ s.greets core event, msg.ping? = none ∧ msg.pong? = none := by
  intro msg hmsg
  unfold greets at hmsg
  split at hmsg
  case h_8 =>
    cases hrole : s.role with
    | controlled => simp [hrole] at hmsg
    | controller ip edge =>
      simp only [hrole, List.mem_cons, List.not_mem_nil, or_false] at hmsg
      rcases hmsg with rfl | rfl <;> exact ⟨rfl, rfl⟩
  case h_9 => cases hmsg
  case h_2 | h_3 =>
    split_ifs at hmsg
    all_goals first | cases hmsg; done | exact List.mem_singleton.mp hmsg ▸ ⟨rfl, rfl⟩
  all_goals exact List.mem_singleton.mp hmsg ▸ ⟨rfl, rfl⟩

theorem pings_messages (ar : Arith) (core : AppCore x) (s : Session) (event : SessionEvent) :
    (s.messages ar core event).filterMap ControlMsg.ping? = s.asked event ∧
      (s.messages ar core event).filterMap ControlMsg.pong? = s.answered event := by
  have hgreets : (s.greets core event).filterMap ControlMsg.ping? = [] ∧
      (s.greets core event).filterMap ControlMsg.pong? = [] :=
    ⟨List.filterMap_eq_nil_iff.mpr fun msg hmsg => (greets_quiet core s event msg hmsg).1,
      List.filterMap_eq_nil_iff.mpr fun msg hmsg => (greets_quiet core s event msg hmsg).2⟩
  have hthread : (s.threadMessages x ar event).filterMap ControlMsg.ping? = [] ∧
      (s.threadMessages x ar event).filterMap ControlMsg.pong? = [] :=
    ⟨List.filterMap_eq_nil_iff.mpr fun msg hmsg => (threadMessages_quiet x ar s event msg hmsg).1,
      List.filterMap_eq_nil_iff.mpr fun msg hmsg => (threadMessages_quiet x ar s event msg hmsg).2⟩
  simp only [messages, List.filterMap_append, hgreets, hthread, List.nil_append, List.append_nil]
  unfold talks asked answered
  cases s.phase with
  | running info =>
    cases event with
    | recv msg =>
      cases msg with
      | setMode mode =>
        dsimp only [answers]
        cases s.role <;> exact ⟨rfl, rfl⟩
      | _ => exact ⟨rfl, rfl⟩
    | cmd cmd epoch =>
      cases cmd with
      | startMirror =>
        dsimp only
        split_ifs <;> exact ⟨rfl, rfl⟩
      | _ => exact ⟨rfl, rfl⟩
    | _ => exact ⟨rfl, rfl⟩
  | _ => exact ⟨rfl, rfl⟩

/-! ### What is lost -/

/-- One of the session's own pings, or its answer, is lost. -/
def losesPing (s : Session) (event : SessionEvent) : Bool :=
  match event with
  | .writerDied => !(s.out.filterMap ControlMsg.ping?).isEmpty
  | .tick => !s.writer
  | .recv (.pong _) => !s.phase.isRunning
  | _ => false

/-- One of the peer's pings, or its answer, is lost. -/
def losesPong (s : Session) (event : SessionEvent) : Bool :=
  match event with
  | .writerDied => !(s.out.filterMap ControlMsg.pong?).isEmpty
  | .recv (.ping _) => !(s.phase.isRunning && s.writer)
  | _ => false

end Session

namespace Link

open Machine

variable {x : Crates} {ar : Arith} {l l' : Link x} {e : LinkEvent} {side : Side} {event : SessionEvent}

/-- The pings of one end: those that wait, those the other has not read, and the pongs on their way back. -/
def pinging (l : Link x) (side : Side) : RoundTrip (BitVec 64) :=
  ⟨(l.session side).pingSent, (l.session side).out.filterMap ControlMsg.ping?,
    (l.session side.other).out.filterMap ControlMsg.pong?⟩

/-- A ping or a pong is lost: it is in the queue of a writer that dies, or is sent by a dead one, or is read outside the main
loop. -/
def Loses (l : Link x) (e : LinkEvent) : Prop :=
  ∃ side event, l.acts e = some (side, event) ∧
    ((l.session side).losesPing event || (l.session side).losesPong event) = true

theorem running_of_tick {core : AppCore x} {s : Session} {p : AppCore x × Session} (h : s.step ar core .tick = some p) :
    ∃ info, s.phase = .running info := by
  cases Session.steps_of_step h with
  | tick info hs => exact ⟨info, hs⟩

theorem moves_pinging (h : step ar l e = some l') (hacts : l.acts e = some (side, event)) :
    RoundTrip.Moves (l.pinging side) ((l.session side).losesPing event) (l'.pinging side) := by
  obtain ⟨p, hp, -, hsession, -, hother, -⟩ := step_of_acts h hacts
  have hsent := Session.step_pingSent hp
  unfold pinging
  rw [hsession, hother, hsent]
  by_cases hdied : event = .writerDied
  · subst hdied
    cases Session.steps_of_step hp with
    | writerDied hslot =>
      have hwaits : (l.session side).unanswered .writerDied = (l.session side).pingSent := by simp [Session.unanswered]
      rw [hwaits]
      unfold Session.losesPing outAfter
      dsimp only
      cases (l.session side).out.filterMap ControlMsg.ping? with
      | nil => exact .stay _
      | cons nonce rest => exact .dropThere nonce _ rest _
  · have hout := (Session.step_messages hp hdied).1
    have hpings := (Session.pings_messages ar (l.core side) (l.session side) event).1
    have hstay : (l.session side).unanswered event = (l.session side).pingSent → (l.session side).asked event = [] →
        (outAfter event (l.session side.other).out).filterMap ControlMsg.pong? =
          (l.session side.other).out.filterMap ControlMsg.pong? →
        RoundTrip.Moves (l.pinging side) false ⟨(l.session side).unanswered event, p.2.out.filterMap ControlMsg.ping?,
          (outAfter event (l.session side.other).out).filterMap ControlMsg.pong?⟩ := by
      intro hwaits hasked hback
      rw [hwaits, hback, hout, List.filterMap_append]
      have hnone : (if (l.session side).writer then (l.session side).messages ar (l.core side) event
          else []).filterMap ControlMsg.ping? = [] := by
        split_ifs
        · exact hpings.trans hasked
        · rfl
      rw [hnone, List.append_nil]
      exact .stay _
    cases event with
    | tick =>
      obtain ⟨info, hs⟩ := running_of_tick hp
      have hwaits : (l.session side).unanswered .tick = (l.session side).pingSent ++ [(l.session side).pingNonce + 1] := by
        simp [Session.unanswered, hs]
      have hasked : (l.session side).asked .tick = [(l.session side).pingNonce + 1] := by simp [Session.asked, hs]
      rw [hwaits, hout, List.filterMap_append]
      unfold Session.losesPing
      cases (l.session side).writer with
      | true =>
        rw [if_pos rfl, hpings, hasked]
        exact .ask _ _ _ _
      | false =>
        rw [if_neg Bool.false_ne_true, List.filterMap_nil, List.append_nil]
        exact .mute _ _ _ _
    | recv msg =>
      obtain ⟨rest, hqueue⟩ := queue_of_recv h hacts
      cases msg with
      | pong nonce =>
        have hasked : (l.session side).asked (.recv (.pong nonce)) = [] := by simp [Session.asked]
        have hsame : p.2.out.filterMap ControlMsg.ping? = (l.session side).out.filterMap ControlMsg.ping? := by
          rw [hout, List.filterMap_append]
          split_ifs
          · rw [hpings, hasked, List.append_nil]
          · rw [List.filterMap_nil, List.append_nil]
        rw [hsame, hqueue]
        unfold Session.losesPing
        cases hrunning : (l.session side).phase.isRunning with
        | true =>
          obtain ⟨info, hs⟩ := Phase.exists_of_isRunning hrunning
          have hwaits : (l.session side).unanswered (.recv (.pong nonce)) = (l.session side).pingSent.erase nonce := by
            simp [Session.unanswered, hs]
          rw [hwaits]
          exact .settle nonce _ _ _
        | false =>
          have hwaits : (l.session side).unanswered (.recv (.pong nonce)) = (l.session side).pingSent := by
            cases hs : (l.session side).phase with
            | running info => simp [hs, Phase.isRunning] at hrunning
            | _ => simp [Session.unanswered, hs]
          rw [hwaits]
          exact .miss nonce _ _ _
      | _ =>
        refine hstay ?_ ?_ ?_
        · simp [Session.unanswered]
        · simp [Session.asked]
        · rw [hqueue]
          rfl
    | writerDied => exact absurd rfl hdied
    | _ =>
      refine hstay ?_ ?_ rfl
      · simp [Session.unanswered]
      · simp [Session.asked]

theorem moves_pinging_other (h : step ar l e = some l') (hacts : l.acts e = some (side, event)) :
    RoundTrip.Moves (l.pinging side.other) ((l.session side).losesPong event) (l'.pinging side.other) := by
  obtain ⟨p, hp, -, hsession, -, hother, -⟩ := step_of_acts h hacts
  unfold pinging
  rw [Side.other_other, hsession, hother]
  dsimp only
  by_cases hdied : event = .writerDied
  · subst hdied
    cases Session.steps_of_step hp with
    | writerDied hslot =>
      unfold Session.losesPong outAfter
      dsimp only
      cases (l.session side).out.filterMap ControlMsg.pong? with
      | nil => exact .stay _
      | cons nonce rest => exact .dropBack nonce _ _ rest
  · have hout := (Session.step_messages hp hdied).1
    have hpongs := (Session.pings_messages ar (l.core side) (l.session side) event).2
    have hback : p.2.out.filterMap ControlMsg.pong? = (l.session side).out.filterMap ControlMsg.pong? ++
        (if (l.session side).writer then (l.session side).answered event else []) := by
      rw [hout, List.filterMap_append, ← hpongs]
      split_ifs <;> rfl
    rw [hback]
    have hstay : (l.session side).answered event = [] →
        (outAfter event (l.session side.other).out).filterMap ControlMsg.ping? =
          (l.session side.other).out.filterMap ControlMsg.ping? →
        RoundTrip.Moves (l.pinging side.other) false ⟨(l.session side.other).pingSent,
          (outAfter event (l.session side.other).out).filterMap ControlMsg.ping?,
          (l.session side).out.filterMap ControlMsg.pong? ++
            (if (l.session side).writer then (l.session side).answered event else [])⟩ := by
      intro hanswered hthere
      rw [hanswered, ite_self, List.append_nil, hthere]
      have hview : l.pinging side.other = ⟨(l.session side.other).pingSent,
          (l.session side.other).out.filterMap ControlMsg.ping?, (l.session side).out.filterMap ControlMsg.pong?⟩ := by
        unfold pinging
        rw [Side.other_other]
      rw [hview]
      exact .stay _
    unfold pinging at hstay
    rw [Side.other_other] at hstay
    cases event with
    | recv msg =>
      obtain ⟨rest, hqueue⟩ := queue_of_recv h hacts
      cases msg with
      | ping nonce =>
        rw [hqueue]
        unfold Session.losesPong
        cases hrunning : (l.session side).phase.isRunning with
        | true =>
          obtain ⟨info, hs⟩ := Phase.exists_of_isRunning hrunning
          have hanswered : (l.session side).answered (.recv (.ping nonce)) = [nonce] := by simp [Session.answered, hs]
          rw [hanswered]
          cases (l.session side).writer with
          | true => exact .answer nonce _ _ _
          | false =>
            rw [if_neg Bool.false_ne_true, List.append_nil]
            exact .ignore nonce _ _ _
        | false =>
          have hanswered : (l.session side).answered (.recv (.ping nonce)) = [] := by
            cases hs : (l.session side).phase with
            | running info => simp [hs, Phase.isRunning] at hrunning
            | _ => simp [Session.answered, hs]
          rw [hanswered, ite_self, List.append_nil]
          exact .ignore nonce _ _ _
      | _ =>
        refine hstay (by simp [Session.answered]) ?_
        rw [hqueue]
        rfl
    | writerDied => exact absurd rfl hdied
    | _ => exact hstay (by simp [Session.answered]) rfl

/-- What is on its way is asked for, at both ends. -/
def PingsBounded (l : Link x) : Prop := ∀ side, (l.pinging side).Bounded

/-- What is asked for is on its way, at both ends. -/
def PingsMatched (l : Link x) : Prop := ∀ side, (l.pinging side).Matched

theorem step_pingsBounded (h : step ar l e = some l') (hl : PingsBounded l) : PingsBounded l' := by
  cases hacts : l.acts e with
  | none =>
    obtain ⟨-, rfl⟩ := eq_breaks_of_idle h hacts
    exact hl
  | some act =>
    obtain ⟨side, event⟩ := act
    intro side'
    rcases Side.eq_or_eq_other side side' with rfl | rfl
    · exact (moves_pinging h hacts).bounded (hl _)
    · exact (moves_pinging_other h hacts).bounded (hl _)

theorem step_pingsMatched (h : step ar l e = some l') (hl : PingsMatched l) : PingsMatched l' ↔ ¬ Loses l e := by
  cases hacts : l.acts e with
  | none =>
    obtain ⟨-, rfl⟩ := eq_breaks_of_idle h hacts
    refine iff_of_true hl ?_
    rintro ⟨side, event, hsome, -⟩
    cases hacts.symm.trans hsome
  | some act =>
    obtain ⟨side, event⟩ := act
    have hmine := (moves_pinging h hacts).matched_iff (hl side)
    have hother := (moves_pinging_other h hacts).matched_iff (hl side.other)
    constructor
    · rintro hl' ⟨side', event', hsome, hlost⟩
      cases hacts.symm.trans hsome
      rw [hmine.mp (hl' side), hother.mp (hl' side.other)] at hlost
      cases hlost
    · intro hnot side'
      have hlost : ((l.session side).losesPing event || (l.session side).losesPong event) = false := by
        by_contra hlost
        exact hnot ⟨side, event, hacts, Bool.not_eq_false _ ▸ hlost⟩
      obtain ⟨hping, hpong⟩ := Bool.or_eq_false_iff.mp hlost
      rcases Side.eq_or_eq_other side side' with rfl | rfl
      · exact hmine.mpr hping
      · exact hother.mpr hpong

/-- In every run of the two ends: the pongs on their way to an end, followed by its pings that the other has not read, are
among the nonces it waits for, in the order in which it asked; so every pong that arrives names a ping that waits. And they
are exactly the nonces it waits for, in every state reached, if and only if no step loses a ping or a pong. -/
theorem pings_matched_iff {core : Side → AppCore x} {ip peer : IpAddr} {edge : ScreenEdge} {key : SessionKey}
    {es : List LinkEvent} (hrun : run (step ar) (initial core ip edge peer key) es = some l) :
    (∀ side, (l.pinging side).underway.Sublist (l.session side).pingSent) ∧
      ((∀ es₁ es₂ l₁, es = es₁ ++ es₂ → run (step ar) (initial core ip edge peer key) es₁ = some l₁ → PingsMatched l₁) ↔
        ¬ Seen (step ar) Loses (initial core ip edge peer key) es) := by
  have hinit : PingsMatched (initial core ip edge peer key) := by
    intro side
    cases side <;> rfl
  refine ⟨?_, always_good_iff (A := fun _ => True) hinit trivial
    (fun t e u ht _ hstep => ⟨step_pingsMatched hstep ht, fun _ => trivial⟩) hrun⟩
  exact run_invariant (P := PingsBounded) (fun side => (hinit side).bounded)
    (fun t e u ht hstep => step_pingsBounded hstep ht) es l hrun

/-- Alice controls Bob and pings it twice; Bob answers the first ping, and Alice's writer dies before Bob reads the
second. -/
def aliceLosesPing : List LinkEvent :=
  aliceStarts ++ [.deliver .b, .act .b .setSlot, .act .b .checkTrust, .act .b (.wire 2 ⟨0, 0, 1920, 1080⟩ none),
    .deliver .b, .deliver .b, .act .a .tick, .deliver .b, .act .a .tick, .breaks, .writerDied .a]

theorem pings_matched_iff_lost :
    ∃ l, run (step .exact) aliceAndBob aliceLosesPing = some l ∧ (l.pinging .a).underway = [1] ∧
      (l.session .a).pingSent = [1, 2] ∧ Seen (step .exact) Loses aliceAndBob aliceLosesPing := by
  obtain ⟨l, hrun, hunderway, hsent⟩ : ∃ l, run (step .exact) aliceAndBob aliceLosesPing = some l ∧
      (l.pinging .a).underway = [1] ∧ (l.session .a).pingSent = [1, 2] := exists_run (by decide +kernel)
  refine ⟨l, hrun, hunderway, hsent, not_not.mp fun hnot => ?_⟩
  have hmatched : (l.session .a).pingSent = (l.pinging .a).underway :=
    (pings_matched_iff hrun).2.mpr hnot aliceLosesPing [] l (List.append_nil _).symm hrun .a
  rw [hunderway, hsent] at hmatched
  cases hmatched

end Link

/-! ### The samples of a process -/

def NetEvent.isRtt : NetEvent → Bool
  | .rtt _ => true
  | _ => false

namespace Session

variable {x : Crates} {ar : Arith} {core : AppCore x} {s : Session} {event : SessionEvent} {p : AppCore x × Session}

/-- The event is a pong that the session waits for. -/
def settles (s : Session) (event : SessionEvent) : Bool :=
  match s.phase, event with
  | .running _, .recv (.pong nonce) => s.pingSent.contains nonce
  | _, _ => false

theorem rtts_news (ar : Arith) (core : AppCore x) (s : Session) (event : SessionEvent) :
    (s.news ar core event).countP NetEvent.isRtt = if s.settles event then 1 else 0 := by
  have hloop : (s.loopEvents x ar event).countP NetEvent.isRtt = 0 := by
    rw [List.countP_eq_zero]
    intro ev hev
    rcases loopEvents_of_loop x ar s event ev hev with ⟨text, rfl⟩ | ⟨on, rfl⟩ <;> exact Bool.false_ne_true
  have hannounces : (s.announces core event).countP NetEvent.isRtt = 0 := by
    unfold announces
    split
    case h_1 => split_ifs <;> rfl
    case h_7 => split <;> rfl
    all_goals rfl
  rw [news, List.countP_append, List.countP_append, hannounces, hloop, Nat.zero_add, Nat.add_zero]
  unfold notes settles
  cases s.phase with
  | running info =>
    cases event with
    | recv msg =>
      cases msg with
      | pong nonce =>
        dsimp only
        split_ifs <;> rfl
      | _ => rfl
    | cmd cmd epoch =>
      cases cmd with
      | startMirror =>
        dsimp only
        split_ifs <;> first | rfl | contradiction
      | _ => rfl
    | _ => rfl
  | closing info result => cases event <;> rfl
  | _ => rfl

theorem length_pingSent (h : s.step ar core event = some p) :
    p.2.pingSent.length + (if s.settles event then 1 else 0) = s.pingSent.length + if event = .tick then 1 else 0 := by
  have hquiet : s.unanswered event = s.pingSent → s.settles event = false → event ≠ .tick →
      (s.unanswered event).length + (if s.settles event then 1 else 0) =
        s.pingSent.length + if event = .tick then 1 else 0 := by
    intro hwaits hsettles htick
    rw [hwaits, hsettles, if_neg Bool.false_ne_true, if_neg htick]
  rw [step_pingSent h]
  cases event with
  | tick =>
    cases steps_of_step h with
    | tick info hs => simp [unanswered, settles, hs]
  | recv msg =>
    cases msg with
    | pong nonce =>
      cases hs : s.phase with
      | running info =>
        by_cases hmem : nonce ∈ s.pingSent
        · have hpos := List.length_pos_of_mem hmem
          simp only [unanswered, settles, hs, List.contains_iff_mem, hmem, if_true, List.length_erase_of_mem hmem,
            reduceCtorEq, if_false]
          omega
        · simp [unanswered, settles, hs, hmem, List.erase_of_not_mem]
      | _ => exact hquiet (by simp [unanswered, hs]) (by simp [settles, hs]) nofun
    | _ => exact hquiet (by simp [unanswered]) (by simp [settles]) nofun
  | _ => exact hquiet (by simp [unanswered]) (by simp [settles]) nofun

end Session

/-- The pings that wait for their pongs. -/
def Handle.pending (h : Handle) : ℕ := (h.session?.map fun s => s.pingSent.length).getD 0

namespace Node

open Machine

variable {x : Crates} {ar : Arith} {core : AppCore x} {es : List NodeEvent} {n n' : Node x} {e : NodeEvent}

/-- The pings of the process that wait for their pongs. -/
def waiting (n : Node x) : ℕ := (n.handles.map Handle.pending).sum

/-- The event is a tick of a session. -/
def isTick : NodeEvent → Bool
  | .session _ .tick => true
  | _ => false

theorem waiting_set {i : ℕ} {h h' : Handle} (hh : n.handles[i]? = some h) (hn' : n'.handles = n.handles.set i h') :
    n'.waiting + h.pending = n.waiting + h'.pending := by
  unfold waiting
  rw [hn']
  clear hn'
  generalize n.handles = hs at hh
  induction hs generalizing i with
  | nil => cases hh
  | cons g hs ih =>
    cases i with
    | zero =>
      obtain rfl : g = h := Option.some.inj hh
      simp only [List.set_cons_zero, List.map_cons, List.sum_cons]
      omega
    | succ i =>
      have hrest := ih (by simpa using hh)
      simp only [List.set_cons_succ, List.map_cons, List.sum_cons]
      omega

theorem waiting_push {h : Handle} (hh : h.pending = 0) (hn' : n'.handles = n.handles ++ [h]) : n'.waiting = n.waiting := by
  simp [waiting, hn', hh]

theorem samples_of_acts (h : step ar n e = some n') {i : ℕ} {event : SessionEvent} (hacts : n.acts e = some (i, event)) :
    n'.core.events.countP NetEvent.isRtt + n'.waiting =
      n.core.events.countP NetEvent.isRtt + n.waiting + if event = .tick then 1 else 0 := by
  have hset : ∀ (s : Session) (name : String) (queue queue' : List Queued) (p : AppCore x × Session),
      n.handles[i]? = some ⟨.session s, name, queue⟩ → s.step ar n.core event = some p →
        n'.handles = n.handles.set i ⟨.session p.2, name, queue'⟩ →
          n'.core.events.countP NetEvent.isRtt + n'.waiting =
            n.core.events.countP NetEvent.isRtt + n.waiting + if event = .tick then 1 else 0 := by
    intro s name queue queue' p hh hp hhandles
    have hwaiting := waiting_set hh hhandles
    have hlength := Session.length_pingSent hp
    obtain ⟨name', p', -, -, hevents⟩ := events_of_acts h hacts (session?_of_handle hh)
    have hreports : ∀ s : Session, (reports x name' s).countP NetEvent.isRtt = 0 := by
      intro s
      unfold reports
      split <;> rfl
    have hnews : (if s.phase.finished then [] else reports x name' p'.2).countP NetEvent.isRtt = 0 := by
      split_ifs
      · rfl
      · exact hreports p'.2
    rw [hevents, List.countP_append, List.countP_append, hnews, Session.rtts_news, Nat.add_zero]
    change n'.waiting + s.pingSent.length = n.waiting + p.2.pingSent.length at hwaiting
    omega
  cases steps_of_step h with
  | command j epoch s name q queue p hh hstep =>
    simp only [acts, hh, Option.some.injEq, Prod.mk.injEq] at hacts
    obtain ⟨rfl, rfl⟩ := hacts
    exact hset s name (q :: queue) queue p hh hstep rfl
  | session j event' s name queue p hh hevent hstep =>
    simp only [acts, Option.some.injEq, Prod.mk.injEq] at hacts
    obtain ⟨rfl, rfl⟩ := hacts
    exact hset s name queue queue p hh hstep rfl
  | _ => cases hacts

theorem samples_of_idle (h : step ar n e = some n') (hacts : n.acts e = none) :
    n'.core.events.countP NetEvent.isRtt + n'.waiting = n.core.events.countP NetEvent.isRtt + n.waiting := by
  have hdials : (n.dials e).countP NetEvent.isRtt = 0 := by
    unfold dials
    split
    · split <;> rfl
    · split <;> rfl
    · rfl
  rw [events_of_idle h hacts, List.countP_append, hdials, Nat.add_zero, Nat.add_right_inj]
  cases steps_of_step h with
  | accept ip key cert hd => exact waiting_push rfl rfl
  | connected i key cert ip edge name queue hh =>
    exact @waiting_set x n _ i _ ⟨.session (.new (.controller ip edge) ip key cert), name, queue⟩ hh rfl
  | connectFailed i error ip edge name queue hh =>
    exact @waiting_set x n _ i _ ⟨.connectFailed, name, queue⟩ hh rfl
  | receive c rest hd hc =>
    obtain ⟨cmd, answers⟩ := c
    cases cmd with
    | connect ip name edge => exact waiting_push rfl rfl
    | _ => rfl
  | visit fingerprint cmd next targets hd =>
    unfold Node.visit
    split <;> rfl
  | send cmd targets n' hd hsend =>
    unfold sendTo at hsend
    split at hsend
    case h_1 => exact Option.some.inj hsend ▸ rfl
    case h_2 i rest =>
      split at hsend
      case h_1 => cases hsend
      case h_2 t hh =>
        split_ifs at hsend
        · exact Option.some.inj hsend ▸ rfl
        · have hset := waiting_set hh (congrArg Node.handles (Option.some.inj hsend)).symm
          exact Nat.add_right_cancel hset
  | command i epoch s name q queue p hh hstep => simp [acts, hh] at hacts
  | session i event s name queue p hh hevent hstep => cases hacts
  | _ => rfl

theorem isTick_of_acts {i : ℕ} {event : SessionEvent} (hacts : n.acts e = some (i, event)) :
    isTick e = true ↔ event = .tick := by
  cases e with
  | command j epoch =>
    simp only [acts] at hacts
    split at hacts
    · cases hacts
      exact iff_of_false Bool.false_ne_true (by simp)
    · cases hacts
  | session j event' =>
    cases hacts
    cases event with
    | tick => exact iff_of_true rfl rfl
    | _ => exact iff_of_false Bool.false_ne_true (by simp)
  | _ => cases hacts

/-- In every run of the process, whatever the peers send: the round-trip times shown and the pings that wait are together
the pings sent. -/
theorem samples_accounted (hcore : core.events = []) (hrun : run (step ar) (initial core) es = some n) :
    n.core.events.countP NetEvent.isRtt + n.waiting = es.countP isTick := by
  refine run_induction (P := fun es n => n.core.events.countP NetEvent.isRtt + n.waiting = es.countP isTick) ?_ ?_ es n hrun
  · change core.events.countP NetEvent.isRtt + 0 = 0
    rw [hcore]
    rfl
  · intro es n e n' _ ih hstep
    rw [List.countP_append, ← ih, List.countP_singleton]
    cases hacts : n.acts e with
    | none =>
      have hquiet : isTick e = false := by
        cases e with
        | session i event => cases hacts
        | _ => rfl
      rw [samples_of_idle hstep hacts, hquiet]
      rfl
    | some act =>
      obtain ⟨i, event⟩ := act
      rw [samples_of_acts hstep hacts]
      simp only [isTick_of_acts hacts]

/-- Bob pings Alice twice; Alice sends the pong of the first ping twice. -/
def pongTwice : List NodeEvent :=
  aliceControls 0 (Vector.replicate 32 1) 11 ++
    [.session 0 .tick, .session 0 .tick, .session 0 (.recv (.pong 1)), .session 0 (.recv (.pong 1))]

theorem samples_accounted_twice :
    ∃ n, run (step .exact) (initial (demoCore certBob "bob" [fpAlice])) pongTwice = some n ∧
      n.core.events.countP NetEvent.isRtt = 1 ∧ n.waiting = 1 := by
  obtain ⟨n, hrun, hshown⟩ : ∃ n, run (step .exact) (initial (demoCore certBob "bob" [fpAlice])) pongTwice = some n ∧
      n.core.events.countP NetEvent.isRtt = 1 := exists_run (by decide +kernel)
  have haccounted := samples_accounted rfl hrun
  have hticks : pongTwice.countP isTick = 2 := rfl
  exact ⟨n, hrun, hshown, by omega⟩

end Node

end ScreenLink
