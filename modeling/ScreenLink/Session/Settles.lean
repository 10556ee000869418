import ScreenLink.Lib.Settling
import ScreenLink.Session.Duplex

/-!
# A connection comes to rest

Two ends in their main loops, left to themselves: writers, readers and main loops move on what has been sent, and the
main loops answer the pings and the mode changes. Each move is one of `work`, and moves of different tasks commute, so
all orders of them end in one state.
-/

namespace ScreenLink

open Machine BoundedChannel

namespace Session

variable {x : Crates} {ar : Arith} {core : AppCore x} {s : Session} {info : DeviceInfo} {msg : ControlMsg}

/-- The main loop owes an answer to the message. -/
def owes (s : Session) (msg : ControlMsg) : Bool := !(answers s.role msg).isEmpty

theorem length_answers (s : Session) (msg : ControlMsg) :
    (answers s.role msg).length = if s.owes msg then 1 else 0 := by
  unfold owes
  cases msg with
  | setMode mode =>
    unfold answers
    cases s.role <;> rfl
  | _ => rfl

theorem not_owes_answers {s' : Session} {got : ControlMsg} (h : msg ∈ answers s.role got) : s'.owes msg = false := by
  cases got with
  | setMode mode =>
    unfold answers at h
    cases hrole : s.role with
    | controlled =>
      rw [hrole] at h
      obtain rfl := List.mem_singleton.mp h
      rfl
    | controller ip edge =>
      rw [hrole] at h
      cases h
  | ping nonce =>
    obtain rfl := List.mem_singleton.mp h
    rfl
  | _ => cases h

theorem accepted_answers {got : ControlMsg} (h : msg ∈ answers s.role got) : msg.isReject = false := by
  have hdata := isData_answers s.role got msg h
  cases msg with
  | reject reason => cases hdata
  | _ => rfl

theorem phase_runningRecv_of_accepted (core : AppCore x) (s : Session) (info : DeviceInfo) (h : msg.isReject = false) :
    (runningRecv core s info msg).2.phase = s.phase := by
  have hphase := phase_handleInbound (mirrorInbound core s info msg).1 (mirrorInbound core s info msg).2 info msg
  rw [phase_mirrorInbound] at hphase
  have hnone : (handleInbound (mirrorInbound core s info msg).1 (mirrorInbound core s info msg).2 info msg).2.2 = none := by
    unfold handleInbound
    split <;> first | cases h; done | split <;> rfl | rfl
  unfold runningRecv
  dsimp only
  rw [hnone]
  exact hphase

theorem takeReceiver_out (s : Session) (out : List ControlMsg) :
    ({ s with out := out } : Session).takeReceiver = { s.takeReceiver with out := out } := by
  cases hmirror : s.mirrorRx <;> simp [takeReceiver, stopReceiver, hmirror]

theorem mirrorInbound_out (core : AppCore x) (s : Session) (info : DeviceInfo) (msg : ControlMsg)
    (out : List ControlMsg) : mirrorInbound core { s with out := out } info msg =
      ((mirrorInbound core s info msg).1, { (mirrorInbound core s info msg).2 with out := out }) := by
  cases msg with
  | startMirror epoch =>
    unfold mirrorInbound
    dsimp only
    rw [takeReceiver_out]
    rfl
  | stopMirror =>
    unfold mirrorInbound
    dsimp only
    rw [takeReceiver_out]
  | _ => rfl

theorem handleInbound_out (core : AppCore x) (s : Session) (info : DeviceInfo) (msg : ControlMsg)
    (out : List ControlMsg) : handleInbound core { s with out := out } info msg =
      ((handleInbound core s info msg).1,
        { (handleInbound core s info msg).2.1 with out := out ++ if s.writer then answers s.role msg else [] },
        (handleInbound core s info msg).2.2) := by
  unfold handleInbound
  cases msg with
  | setMode mode =>
    dsimp only
    cases hrole : s.role <;> cases hwriter : s.writer <;> simp [send, answers, hrole, hwriter]
  | realtimeOpen port epoch | edgeEnter px py =>
    dsimp only
    cases hrole : s.role <;> simp [answers, hrole]
  | clipboard data =>
    cases data
    simp [answers]
  | ping nonce => cases hwriter : s.writer <;> simp [send, answers, hwriter]
  | pong nonce =>
    dsimp only
    split_ifs <;> simp [answers]
  | _ => simp [answers]

theorem runningRecv_out (core : AppCore x) (s : Session) (info : DeviceInfo) (msg : ControlMsg)
    (out : List ControlMsg) : runningRecv core { s with out := out } info msg =
      ((runningRecv core s info msg).1,
        { (runningRecv core s info msg).2 with out := out ++ if s.writer then answers s.role msg else [] }) := by
  have hwriter : (mirrorInbound core s info msg).2.writer = s.writer := (adds_mirrorInbound core s info msg).2
  have hrole : (mirrorInbound core s info msg).2.role = s.role := (mirrorInbound_frame core s info msg).role
  unfold runningRecv
  rw [mirrorInbound_out]
  dsimp only
  rw [handleInbound_out, hwriter, hrole]
  dsimp only
  cases (handleInbound (mirrorInbound core s info msg).1 (mirrorInbound core s info msg).2 info msg).2.2 <;> rfl

end Session

namespace Duplex

variable {x : Crates} {ar : Arith} {capacity : ℕ} {d d' t u : Duplex x} {e f : DuplexEvent} {side : Side}
  {info : DeviceInfo} {msg : ControlMsg} {rest : List ControlMsg}

/-- Both ends are in their main loops, and the connection is whole. -/
structure Flowing (d : Duplex x) : Prop where
  holds : d.link.broken = false
  running : ∀ side, ∃ info, (d.session side).phase = .running info
  slot : ∀ side, (d.session side).slot.isSome = true
  writer : ∀ side, (d.session side).writer = true
  accepted : ∀ side, ∀ msg ∈ (d.session side).out, msg.isReject = false
  fits : d.Fits

theorem room_eq (hd : Flowing d) (side : Side) : d.room side = OUTBOX := if_pos (hd.slot side)

theorem inbox_eq (hd : Flowing d) (side : Side) : d.inbox side = INBOX + 1 := if_pos (hd.slot side)

theorem mainWaits_iff (hd : Flowing d) : d.MainWaits side ↔ Waits OUTBOX (d.lane side).line .main := by
  rw [MainWaits, room_eq hd]

/-- The two ends after the main loop of `side` has handled `msg`, when `rest` is behind it. -/
def handling (d : Duplex x) (side : Side) (info : DeviceInfo) (msg : ControlMsg) (rest : List ControlMsg) : Duplex x where
  link := (d.link.setOut side.other rest).set side (Session.runningRecv (d.link.core side) (d.session side) info msg)
  lane := Function.update (fun _ => { d.lane side.other with inn := (d.lane side.other).inn - 1 }) side
    { d.lane side with
      line := (d.lane side).line ++ List.replicate (Session.answers (d.session side).role msg).length .main }

@[simp] theorem handling_lane (d : Duplex x) (side : Side) (info : DeviceInfo) (msg : ControlMsg)
    (rest : List ControlMsg) : (d.handling side info msg rest).lane side = { d.lane side with
      line := (d.lane side).line ++ List.replicate (Session.answers (d.session side).role msg).length .main } := by
  simp [handling]

@[simp] theorem handling_lane_other (d : Duplex x) (side : Side) (info : DeviceInfo) (msg : ControlMsg)
    (rest : List ControlMsg) : (d.handling side info msg rest).lane side.other =
      { d.lane side.other with inn := (d.lane side.other).inn - 1 } := by
  simp [handling]

@[simp] theorem handling_session (d : Duplex x) (side : Side) (info : DeviceInfo) (msg : ControlMsg)
    (rest : List ControlMsg) : (d.handling side info msg rest).session side =
      (Session.runningRecv (d.link.core side) (d.session side) info msg).2 := by
  simp [handling, session, Link.set]

@[simp] theorem handling_session_other (d : Duplex x) (side : Side) (info : DeviceInfo) (msg : ControlMsg)
    (rest : List ControlMsg) : (d.handling side info msg rest).session side.other =
      { d.session side.other with out := rest } := by
  simp [handling, session, Link.set, Link.setOut]

@[simp] theorem handling_core (d : Duplex x) (side : Side) (info : DeviceInfo) (msg : ControlMsg)
    (rest : List ControlMsg) : (d.handling side info msg rest).link.core side =
      (Session.runningRecv (d.link.core side) (d.session side) info msg).1 := by
  simp [handling, Link.set]

@[simp] theorem handling_core_other (d : Duplex x) (side : Side) (info : DeviceInfo) (msg : ControlMsg)
    (rest : List ControlMsg) : (d.handling side info msg rest).link.core side.other = d.link.core side.other := by
  simp [handling, Link.set, Link.setOut]

/-- The moves of what has been sent, between two ends in their main loops. -/
inductive Flow (capacity : ℕ) (d : Duplex x) : DuplexEvent → Duplex x → Prop
  | deliver (side : Side) (info : DeviceInfo) (msg : ControlMsg) (rest : List ControlMsg)
    (hphase : (d.session side).phase = .running info) (hout : (d.session side.other).out = msg :: rest)
    (hinn : 0 < (d.lane side.other).inn) (hfree : ¬ d.MainWaits side) :
    Flow capacity d (.link (.deliver side)) (d.handling side info msg rest)
  | write (side : Side) (hline : (d.lane side).line ≠ []) (hwire : (d.lane side).wire < capacity) :
    Flow capacity d (.write side) (d.onLane side Lane.write)
  | read (side : Side) (hwire : 0 < (d.lane side.other).wire) (hinn : (d.lane side.other).inn < INBOX + 1) :
    Flow capacity d (.read side) (d.onLane side.other Lane.read)

theorem step_deliver (hd : Flowing d) (hphase : (d.session side).phase = .running info)
    (hout : (d.session side.other).out = msg :: rest) :
    step ar capacity d (.link (.deliver side)) =
      if ¬ d.MainWaits side ∧ 0 < (d.lane side.other).inn then some (d.handling side info msg rest) else none := by
  have hacts : d.link.acts (.deliver side) = some (side, .recv msg) := by
    simp only [session] at hout
    simp [Link.acts, hout]
  have hready : d.ready side (.recv msg) = true ↔ ¬ d.MainWaits side ∧ 0 < (d.lane side.other).inn := by
    simp [ready, MainWaits, SessionEvent.task]
  have hlink : d.link.step ar (.deliver side) =
      some ((d.link.setOut side.other rest).set side
        (Session.runningRecv (d.link.core side) (d.session side) info msg)) := by
    have hsame : (d.link.setOut side.other rest).session side = d.session side := by
      simp [Link.setOut, session, Function.update_of_ne (Side.other_ne side).symm]
    simp only [session] at hout
    simp only [Link.step, hout]
    unfold Link.stepSide
    rw [hsame]
    unfold Session.step
    rw [hphase]
    rfl
  have hsent : (Session.runningRecv (d.link.core side) (d.session side) info msg).2.out =
      (d.session side).out ++ Session.answers (d.session side).role msg := by
    have hadds := (Session.adds_runningRecv (d.link.core side) (d.session side) info msg).1
    rwa [if_pos (hd.writer side)] at hadds
  simp only [step, stepLink, hacts]
  by_cases hguard : ¬ d.MainWaits side ∧ 0 < (d.lane side.other).inn
  · rw [if_pos (hready.mpr hguard), if_pos hguard, hlink, Option.map_some]
    unfold afterAct handling
    simp only [Link.set, Function.update_self, hsent, List.length_append, Nat.add_sub_cancel_left]
    rfl
  · rw [if_neg (fun h => hguard (hready.mp h)), if_neg hguard]

theorem exists_of_inn (hd : Flowing d) (hinn : 0 < (d.lane side.other).inn) :
    ∃ msg rest, (d.session side.other).out = msg :: rest := by
  have hfits := hd.fits side.other
  cases hout : (d.session side.other).out with
  | nil =>
    rw [hout, List.length_nil] at hfits
    omega
  | cons msg rest => exact ⟨msg, rest, rfl⟩

theorem flow_of_step (hd : Flowing d) (hflows : e.flows) (h : step ar capacity d e = some d') :
    Flow capacity d e d' := by
  cases e with
  | link e =>
    cases e with
    | deliver side =>
      obtain ⟨info, hphase⟩ := hd.running side
      cases hout : (d.session side.other).out with
      | nil =>
        simp only [session] at hout
        simp [step, stepLink, Link.acts, Link.step, hout] at h
      | cons msg rest =>
        rw [step_deliver hd hphase hout] at h
        split_ifs at h with hguard
        obtain rfl := Option.some.inj h
        exact .deliver side info msg rest hphase hout hguard.2 hguard.1
    | _ => cases hflows
  | write side =>
    cases steps_of_step h with
    | write side hwriter hline hwire => exact .write side hline hwire
  | read side =>
    cases steps_of_step h with
    | read side hphase hwire hinn => exact .read side hwire (inbox_eq hd side ▸ hinn)

theorem step_of_flow (ar : Arith) (hd : Flowing d) (h : Flow capacity d e d') :
    e.flows ∧ step ar capacity d e = some d' := by
  cases h with
  | deliver side info msg rest hphase hout hinn hfree =>
    exact ⟨trivial, by rw [step_deliver hd hphase hout, if_pos ⟨hfree, hinn⟩]⟩
  | write side hline hwire => exact ⟨trivial, if_pos ⟨hd.writer side, hline, hwire⟩⟩
  | read side hwire hinn =>
    obtain ⟨info, hphase⟩ := hd.running side
    refine ⟨trivial, if_pos ⟨?_, hwire, (inbox_eq hd side).symm ▸ hinn⟩⟩
    rw [hphase]
    rfl

theorem flowing_of_flow (hd : Flowing d) (h : Flow capacity d e d') : Flowing d' := by
  have hfits := step_fits (step_of_flow .exact hd h).2 hd.fits
  cases h with
  | deliver side info msg rest hphase hout hinn hfree =>
    have hframe := Session.runningRecv_frame (d.link.core side) (d.session side) info msg
    have hadds := Session.adds_runningRecv (d.link.core side) (d.session side) info msg
    have haccepted : msg.isReject = false := hd.accepted side.other msg (by rw [hout]; exact List.mem_cons_self)
    refine ⟨hd.holds, fun side' => ?_, fun side' => ?_, fun side' => ?_, fun side' got hgot => ?_, hfits⟩
    · rcases Side.eq_or_eq_other side side' with rfl | rfl
      · rw [handling_session, Session.phase_runningRecv_of_accepted _ _ _ haccepted]
        exact ⟨info, hphase⟩
      · rw [handling_session_other]
        exact hd.running _
    · rcases Side.eq_or_eq_other side side' with rfl | rfl
      · rw [handling_session, hframe.slot]
        exact hd.slot _
      · rw [handling_session_other]
        exact hd.slot side.other
    · rcases Side.eq_or_eq_other side side' with rfl | rfl
      · rw [handling_session, hadds.2]
        exact hd.writer _
      · rw [handling_session_other]
        exact hd.writer side.other
    · rcases Side.eq_or_eq_other side side' with rfl | rfl
      · rw [handling_session, hadds.1, if_pos (hd.writer _)] at hgot
        rcases List.mem_append.mp hgot with hold | hnew
        · exact hd.accepted _ got hold
        · exact Session.accepted_answers hnew
      · rw [handling_session_other] at hgot
        exact hd.accepted side.other got (by rw [hout]; exact List.mem_cons_of_mem msg hgot)
  | write side hline hwire => exact ⟨hd.holds, hd.running, hd.slot, hd.writer, hd.accepted, hfits⟩
  | read side hwire hinn => exact ⟨hd.holds, hd.running, hd.slot, hd.writer, hd.accepted, hfits⟩

/-! ### The work that is left -/

/-- The moves that the messages of `side` will make, with their answers: one for each queue ahead, and three more for
the answer. -/
def workOf (d : Duplex x) (side : Side) : ℕ :=
  3 * (d.lane side).line.length + 2 * (d.lane side).wire + (d.lane side).inn +
    3 * (d.session side).out.countP (d.session side.other).owes

def work (d : Duplex x) : ℕ := d.workOf .a + d.workOf .b

/-- The messages underway. -/
def underway (d : Duplex x) : ℕ := (d.session .a).out.length + (d.session .b).out.length

theorem work_eq (d : Duplex x) (side : Side) : d.work = d.workOf side + d.workOf side.other := by
  cases side with
  | a => rfl
  | b => exact Nat.add_comm _ _

theorem underway_eq (d : Duplex x) (side : Side) :
    d.underway = (d.session side).out.length + (d.session side.other).out.length := by
  cases side with
  | a => rfl
  | b => exact Nat.add_comm _ _

theorem owes_out (s : Session) (out : List ControlMsg) : ({ s with out := out } : Session).owes = s.owes := rfl

theorem owes_congr {s s' : Session} (h : s'.role = s.role) : s'.owes = s.owes := by
  unfold Session.owes
  rw [h]

theorem work_of_flow (hd : Flowing d) (h : Flow capacity d e d') :
    d'.work + 1 = d.work ∧ d'.underway ≤ d.underway := by
  cases h with
  | deliver side info msg rest hphase hout hinn hfree =>
    have hrole := (Session.runningRecv_frame (d.link.core side) (d.session side) info msg).role
    have hsent := (Session.adds_runningRecv (d.link.core side) (d.session side) info msg).1
    rw [if_pos (hd.writer side)] at hsent
    have hanswers := (d.session side).length_answers msg
    have hnone : (Session.answers (d.session side).role msg).countP (d.session side.other).owes = 0 :=
      List.countP_eq_zero.mpr fun got hgot => by rw [Session.not_owes_answers hgot]; exact Bool.false_ne_true
    have hmine : (d.handling side info msg rest).workOf side =
        d.workOf side + 3 * (Session.answers (d.session side).role msg).length := by
      unfold workOf
      rw [handling_lane, handling_session, handling_session_other, hsent, owes_out]
      simp only [List.length_append, List.length_replicate, List.countP_append, hnone]
      omega
    have htheirs : (d.handling side info msg rest).workOf side.other + 1 +
        3 * (if (d.session side).owes msg then 1 else 0) = d.workOf side.other := by
      unfold workOf
      rw [handling_lane_other, handling_session_other, Side.other_other, handling_session, owes_congr hrole, hout,
        List.countP_cons]
      dsimp only
      omega
    refine ⟨?_, ?_⟩
    · rw [work_eq _ side, work_eq d side, hmine, ← htheirs, hanswers]
      omega
    · rw [underway_eq _ side, underway_eq d side, handling_session, handling_session_other, hsent, hout]
      rw [List.length_append, List.length_cons, hanswers]
      dsimp only
      split_ifs <;> omega
  | write side hline hwire =>
    have hpos := List.length_pos_iff.mpr hline
    refine ⟨?_, Nat.le_refl _⟩
    rw [work_eq _ side, work_eq d side]
    simp only [workOf, onLane_session, onLane_lane, onLane_lane_other, Lane.write, List.length_tail]
    omega
  | read side hwire hinn =>
    refine ⟨?_, Nat.le_refl _⟩
    rw [work_eq _ side, work_eq d side]
    simp only [workOf, onLane_session, onLane_lane, onLane_other_lane, Lane.read]
    omega

/-! ### Moves of different tasks commute -/

theorem ext_link {l l' : Link x} (hcore : ∀ side, l.core side = l'.core side)
    (hsession : ∀ side, l.session side = l'.session side) (hbroken : l.broken = l'.broken) : l = l' := by
  obtain ⟨core, session, broken⟩ := l
  obtain ⟨core', session', broken'⟩ := l'
  obtain rfl : core = core' := funext hcore
  obtain rfl : session = session' := funext hsession
  obtain rfl : broken = broken' := hbroken
  rfl

theorem ext_duplex (side : Side) (hlink : t.link = u.link) (hlane : t.lane side = u.lane side)
    (hother : t.lane side.other = u.lane side.other) : t = u := by
  obtain ⟨link, lane⟩ := t
  obtain ⟨link', lane'⟩ := u
  obtain rfl : link = link' := hlink
  obtain rfl : lane = lane' := by
    funext side'
    rcases Side.eq_or_eq_other side side' with rfl | rfl
    · exact hlane
    · exact hother
  rfl

theorem handling_of_other (d : Duplex x) (side : Side) (info : DeviceInfo) (msg : ControlMsg) (rest : List ControlMsg) :
    (d.handling side.other info msg rest).link.core side = d.link.core side ∧
      (d.handling side.other info msg rest).session side = { d.session side with out := rest } ∧
      (d.handling side.other info msg rest).lane side = { d.lane side with inn := (d.lane side).inn - 1 } := by
  have hcore := handling_core_other d side.other info msg rest
  have hsession := handling_session_other d side.other info msg rest
  have hlane := handling_lane_other d side.other info msg rest
  rw [Side.other_other] at hcore hsession hlane
  exact ⟨hcore, hsession, hlane⟩

theorem handling_comm (hd : Flowing d) {info' : DeviceInfo} {msg' : ControlMsg} {rest' : List ControlMsg} :
    (d.handling side info msg rest).handling side.other info' msg' (rest' ++ Session.answers (d.session side).role msg) =
      (d.handling side.other info' msg' rest').handling side info msg
        (rest ++ Session.answers (d.session side.other).role msg') := by
  have hother := Session.runningRecv_out (d.link.core side.other) (d.session side.other) info' msg' rest
  have hself := Session.runningRecv_out (d.link.core side) (d.session side) info msg rest'
  rw [if_pos (hd.writer side.other)] at hother
  rw [if_pos (hd.writer side)] at hself
  obtain ⟨hcore, hsession, hlane⟩ := handling_of_other d side info' msg' rest'
  obtain ⟨hcore', hsession', hlane'⟩ := handling_of_other (d.handling side info msg rest) side info' msg'
    (rest' ++ Session.answers (d.session side).role msg)
  refine ext_duplex side (ext_link (fun side' => ?_) (fun side' => ?_) rfl) ?_ ?_
  · rcases Side.eq_or_eq_other side side' with rfl | rfl
    · rw [hcore', handling_core, handling_core, hcore, hsession, hself]
    · rw [handling_core, handling_core_other, handling_core_other, handling_session_other, handling_core, hother]
  · change Duplex.session _ side' = Duplex.session _ side'
    rcases Side.eq_or_eq_other side side' with rfl | rfl
    · rw [hsession', handling_session, handling_session, hcore, hsession, hself]
    · rw [handling_session, handling_core_other, handling_session_other, handling_session_other, handling_session, hother]
  · rw [hlane', handling_lane, handling_lane, hlane, hsession]
  · rw [handling_lane, handling_lane_other, handling_lane_other, handling_session_other, handling_lane]

theorem commutes_deliver (hd : Flowing d) (ht : Flow capacity d (.link (.deliver side)) t)
    (hu : Flow capacity d (.link (.deliver side.other)) u) :
    ∃ v, Flow capacity t (.link (.deliver side.other)) v ∧ Flow capacity u (.link (.deliver side)) v := by
  have ht' := flowing_of_flow hd ht
  have hu' := flowing_of_flow hd hu
  cases ht with
  | deliver _ info msg rest hphase hout hinn hfree =>
    cases hu with
    | deliver _ info' msg' rest' hphase' hout' hinn' hfree' =>
      rw [Side.other_other] at hout' hinn'
      have hsent := (Session.adds_runningRecv (d.link.core side) (d.session side) info msg).1
      have hsent' := (Session.adds_runningRecv (d.link.core side.other) (d.session side.other) info' msg').1
      rw [if_pos (hd.writer side), hout', List.cons_append] at hsent
      rw [if_pos (hd.writer side.other), hout, List.cons_append] at hsent'
      obtain ⟨-, hsession, hlane⟩ := handling_of_other d side info' msg' rest'
      have hfirst : Flow capacity (d.handling side info msg rest) (.link (.deliver side.other))
          ((d.handling side info msg rest).handling side.other info' msg'
            (rest' ++ Session.answers (d.session side).role msg)) := by
        refine .deliver side.other info' msg' _ ?_ ?_ ?_ ?_
        · rw [handling_session_other]
          exact hphase'
        · rw [Side.other_other, handling_session, hsent]
        · rw [Side.other_other, handling_lane]
          exact hinn'
        · rw [mainWaits_iff ht', handling_lane_other]
          rwa [mainWaits_iff hd] at hfree'
      have hsecond : Flow capacity (d.handling side.other info' msg' rest') (.link (.deliver side))
          ((d.handling side.other info' msg' rest').handling side info msg
            (rest ++ Session.answers (d.session side.other).role msg')) := by
        refine .deliver side info msg _ ?_ ?_ ?_ ?_
        · rw [hsession]
          exact hphase
        · rw [handling_session, hsent']
        · rw [handling_lane]
          exact hinn
        · rw [mainWaits_iff hu', hlane]
          rwa [mainWaits_iff hd] at hfree
      rw [← handling_comm hd] at hsecond
      exact ⟨_, hfirst, hsecond⟩

theorem commutes_write (hd : Flowing d) (ht : Flow capacity d (.write side) t) (hu : Flow capacity d f u)
    (hne : f ≠ .write side) : ∃ v, Flow capacity t f v ∧ Flow capacity u (.write side) v := by
  have ht' := flowing_of_flow hd ht
  cases ht with
  | write _ hline hwire =>
    have hpos := List.length_pos_iff.mpr hline
    cases hu with
    | write side' hline' hwire' =>
      rcases Side.eq_or_eq_other side side' with rfl | rfl
      · exact absurd rfl hne
      · have heq : (d.onLane side Lane.write).onLane side.other Lane.write =
            (d.onLane side.other Lane.write).onLane side Lane.write := ext_duplex side rfl (by simp) (by simp)
        exact ⟨_, .write side.other (by simpa using hline') (by simpa using hwire'),
          heq ▸ .write side (by simpa using hline) (by simpa using hwire)⟩
    | read side' hwire' hinn' =>
      rcases Side.eq_or_eq_other side side' with rfl | rfl
      · have heq : (d.onLane side' Lane.write).onLane side'.other Lane.read =
            (d.onLane side'.other Lane.read).onLane side' Lane.write := ext_duplex side' rfl (by simp) (by simp)
        exact ⟨_, .read side' (by simpa using hwire') (by simpa using hinn'),
          heq ▸ .write side' (by simpa using hline) (by simpa using hwire)⟩
      · rw [Side.other_other] at hwire' hinn'
        have heq : (d.onLane side Lane.write).onLane side.other.other Lane.read =
            (d.onLane side.other.other Lane.read).onLane side Lane.write := by
          rw [Side.other_other]
          refine ext_duplex side rfl ?_ (by simp)
          simp only [onLane_lane, Lane.write, Lane.read, Lane.mk.injEq, true_and, and_true]
          omega
        refine ⟨_, .read side.other ?_ ?_, heq ▸ .write side ?_ ?_⟩
        all_goals
          simp only [Side.other_other, onLane_lane, Lane.write, Lane.read]
          first | assumption | omega
    | deliver side' info msg rest hphase hout hinn hfree =>
      rw [mainWaits_iff hd] at hfree
      rcases Side.eq_or_eq_other side side' with rfl | rfl
      · have heq : (d.onLane side' Lane.write).handling side' info msg rest =
            (d.handling side' info msg rest).onLane side' Lane.write := by
          refine ext_duplex side' rfl ?_ (by simp)
          simp only [handling_lane, onLane_lane, onLane_session, Lane.write, List.tail_append_of_ne_nil hline]
        refine ⟨_, .deliver side' info msg rest hphase hout (by simpa using hinn) ?_, heq ▸ .write side' ?_ ?_⟩
        · rw [mainWaits_iff ht', onLane_lane]
          exact fun hwaits => hfree (waits_of_tail hwaits)
        · simp [hline]
        · simpa using hwire
      · obtain ⟨hcore, hsession, hlane⟩ := handling_of_other d side info msg rest
        obtain ⟨-, -, hlane'⟩ := handling_of_other (d.onLane side Lane.write) side info msg rest
        have heq : (d.onLane side Lane.write).handling side.other info msg rest =
            (d.handling side.other info msg rest).onLane side Lane.write := by
          refine ext_duplex side rfl ?_ (by simp)
          rw [hlane', onLane_lane, onLane_lane, hlane]
          rfl
        refine ⟨_, .deliver side.other info msg rest hphase hout ?_ ?_, heq ▸ .write side ?_ ?_⟩
        · rw [Side.other_other] at hinn ⊢
          rwa [onLane_lane]
        · rwa [mainWaits_iff ht', onLane_lane_other]
        · rwa [hlane]
        · rwa [hlane]

theorem commutes_read (hd : Flowing d) (ht : Flow capacity d (.read side) t) (hu : Flow capacity d f u)
    (hne : f ≠ .read side) (hwrite : ∀ side', f ≠ .write side') :
    ∃ v, Flow capacity t f v ∧ Flow capacity u (.read side) v := by
  have ht' := flowing_of_flow hd ht
  cases ht with
  | read _ hwire hinn =>
    cases hu with
    | write side' hline' hwire' => exact absurd rfl (hwrite side')
    | read side' hwire' hinn' =>
      rcases Side.eq_or_eq_other side side' with rfl | rfl
      · exact absurd rfl hne
      · rw [Side.other_other] at hwire' hinn'
        have heq : (d.onLane side.other Lane.read).onLane side.other.other Lane.read =
            (d.onLane side.other.other Lane.read).onLane side.other Lane.read := by
          rw [Side.other_other]
          exact ext_duplex side rfl (by simp) (by simp)
        refine ⟨_, .read side.other ?_ ?_, heq ▸ .read side ?_ ?_⟩
        all_goals
          simp only [Side.other_other, onLane_other_lane, onLane_lane_other]
          assumption
    | deliver side' info msg rest hphase hout hinn' hfree =>
      rw [mainWaits_iff hd] at hfree
      rcases Side.eq_or_eq_other side side' with rfl | rfl
      · have heq : (d.onLane side'.other Lane.read).handling side' info msg rest =
            (d.handling side' info msg rest).onLane side'.other Lane.read := by
          refine ext_duplex side' rfl (by simp) ?_
          simp only [handling_lane_other, onLane_lane, Lane.read, Lane.mk.injEq, true_and]
          omega
        refine ⟨_, .deliver side' info msg rest hphase hout ?_ ?_, heq ▸ .read side' ?_ ?_⟩
        · simp [Lane.read]
        · rwa [mainWaits_iff ht', onLane_other_lane]
        · simpa using hwire
        · rw [handling_lane_other]
          dsimp only
          omega
      · obtain ⟨hcore, hsession, hlane⟩ := handling_of_other d side info msg rest
        obtain ⟨-, -, hlane'⟩ := handling_of_other (d.onLane side.other Lane.read) side info msg rest
        have heq : (d.onLane side.other Lane.read).handling side.other info msg rest =
            (d.handling side.other info msg rest).onLane side.other Lane.read := by
          refine ext_duplex side rfl ?_ ?_
          · rw [hlane', onLane_other_lane, onLane_other_lane, hlane]
          · rw [handling_lane, onLane_lane, onLane_lane, handling_lane]
            rfl
        refine ⟨_, .deliver side.other info msg rest hphase hout ?_ ?_, heq ▸ .read side ?_ ?_⟩
        · rw [Side.other_other] at hinn' ⊢
          rwa [onLane_other_lane]
        · rwa [mainWaits_iff ht', onLane_lane]
        · rwa [handling_lane]
        · rwa [handling_lane]

/-- Two moves that are possible in one state can follow each other in either order. -/
theorem commutes_flow (hd : Flowing d) (ht : Flow capacity d e t) (hu : Flow capacity d f u) (hne : e ≠ f) :
    ∃ v, Flow capacity t f v ∧ Flow capacity u e v := by
  have hswap : (∃ v, Flow capacity u e v ∧ Flow capacity t f v) → ∃ v, Flow capacity t f v ∧ Flow capacity u e v :=
    fun ⟨v, hv⟩ => ⟨v, hv.symm⟩
  cases e with
  | write side => exact commutes_write hd ht hu hne.symm
  | read side =>
    cases f with
    | write side' => exact hswap (commutes_write hd hu ht hne)
    | read side' => exact commutes_read hd ht hu hne.symm (by simp)
    | link f => exact commutes_read hd ht hu hne.symm (by simp)
  | link e =>
    cases f with
    | write side' => exact hswap (commutes_write hd hu ht hne)
    | read side' => exact hswap (commutes_read hd hu ht hne (by simp))
    | link f =>
      obtain ⟨side, rfl⟩ : ∃ side, e = .deliver side := by
        cases ht with
        | deliver side => exact ⟨side, rfl⟩
      obtain ⟨side', rfl⟩ : ∃ side', f = .deliver side' := by
        cases hu with
        | deliver side' => exact ⟨side', rfl⟩
      rcases Side.eq_or_eq_other side side' with rfl | rfl
      · exact absurd rfl hne
      · exact commutes_deliver hd ht hu

theorem settling (ar : Arith) (capacity : ℕ) :
    Settling (step ar capacity) DuplexEvent.flows (Flowing (x := x)) work where
  keeps _ _ _ hd hflows h := flowing_of_flow hd (flow_of_step hd hflows h)
  uses _ _ _ hd hflows h := (work_of_flow hd (flow_of_step hd hflows h)).1
  commutes d e f t u hd he hf ht hu := by
    by_cases hsame : e = f
    · subst hsame
      exact Or.inl (Option.some.inj (ht.symm.trans hu))
    · have ht' := flow_of_step hd he ht
      have hu' := flow_of_step hd hf hu
      obtain ⟨v, hv, hv'⟩ := commutes_flow hd ht' hu' hsame
      exact Or.inr ⟨v, (step_of_flow ar (flowing_of_flow hd ht') hv).2, (step_of_flow ar (flowing_of_flow hd hu') hv').2⟩

/-! ### Where it comes to rest -/

/-- Everything sent has been handled. -/
def Drained (d : Duplex x) : Prop := ∀ side, (d.session side).out = []

/-- Each main loop waits for room, behind queues that are full up to the other main loop. -/
def Gridlock (capacity : ℕ) (d : Duplex x) : Prop :=
  ∀ side, d.MainWaits side ∧ capacity ≤ (d.lane side).wire ∧ INBOX + 1 ≤ (d.lane side).inn

theorem drained_iff (hd : Flowing d) :
    d.Drained ↔ ∀ side, (d.lane side).line = [] ∧ (d.lane side).wire = 0 ∧ (d.lane side).inn = 0 := by
  refine forall_congr' fun side => ?_
  have hfits := hd.fits side
  rw [← List.length_eq_zero_iff, ← List.length_eq_zero_iff (l := (d.lane side).line)]
  omega

theorem Flow.not_rests (h : Flow capacity d e d') (hd : Flowing d)
    (hrests : Rests (step ar capacity) DuplexEvent.flows d) : False := by
  obtain ⟨hflows, hstep⟩ := step_of_flow ar hd h
  rw [hrests e hflows] at hstep
  cases hstep

theorem length_of_mainWaits (hd : Flowing d) (h : d.MainWaits side) : OUTBOX < (d.lane side).line.length := by
  rw [mainWaits_iff hd, waits_iff] at h
  exact h.trans_le (upTo_le_length _ _)

theorem full_of_waits (hd : Flowing d) (hrests : Rests (step ar capacity) DuplexEvent.flows d) (h : d.MainWaits side) :
    capacity ≤ (d.lane side).wire ∧ (0 < capacity → INBOX + 1 ≤ (d.lane side).inn ∧ d.MainWaits side.other) := by
  have hline : (d.lane side).line ≠ [] := by
    have hlength := length_of_mainWaits hd h
    exact List.ne_nil_of_length_pos (by omega)
  have hwire : capacity ≤ (d.lane side).wire := by
    by_contra hroom
    have hflow : Flow capacity d (.write side) (d.onLane side Lane.write) := .write side hline (by omega)
    exact hflow.not_rests hd hrests
  refine ⟨hwire, fun hpos => ?_⟩
  have hinn : INBOX + 1 ≤ (d.lane side).inn := by
    by_contra hroom
    have hflow : Flow capacity d (.read side.other) (d.onLane side.other.other Lane.read) := by
      refine .read side.other ?_ ?_ <;> rw [Side.other_other] <;> omega
    exact hflow.not_rests hd hrests
  refine ⟨hinn, ?_⟩
  by_contra hfree
  obtain ⟨info, hphase⟩ := hd.running side.other
  have hready : 0 < (d.lane side.other.other).inn := by
    rw [Side.other_other]
    omega
  obtain ⟨msg, rest, hout⟩ := exists_of_inn hd hready
  have hflow : Flow capacity d (.link (.deliver side.other)) (d.handling side.other info msg rest) :=
    .deliver side.other info msg rest hphase hout hready hfree
  exact hflow.not_rests hd hrests

/-- At rest everything has been handled, or nothing moves any more. -/
theorem rests_iff (hd : Flowing d) (hpos : 0 < capacity) :
    Rests (step ar capacity) DuplexEvent.flows d ↔ d.Drained ∨ d.Gridlock capacity := by
  constructor
  · intro hrests
    by_cases hwaits : ∃ side, d.MainWaits side
    · obtain ⟨side, hside⟩ := hwaits
      obtain ⟨hwire, hfull⟩ := full_of_waits hd hrests hside
      obtain ⟨hinn, hother⟩ := hfull hpos
      obtain ⟨hwire', hfull'⟩ := full_of_waits hd hrests hother
      refine Or.inr fun side' => ?_
      rcases Side.eq_or_eq_other side side' with rfl | rfl
      · exact ⟨hside, hwire, hinn⟩
      · exact ⟨hother, hwire', (hfull' hpos).1⟩
    · simp only [not_exists] at hwaits
      refine Or.inl ((drained_iff hd).mpr fun side => ?_)
      -- nobody waits, so the queues are empty from the reader back to the line
      have hinn : (d.lane side).inn = 0 := by
        by_contra hsome
        have hready : 0 < (d.lane side.other.other).inn := by
          rw [Side.other_other]
          omega
        obtain ⟨info, hphase⟩ := hd.running side.other
        obtain ⟨msg, rest, hout⟩ := exists_of_inn hd hready
        have hflow : Flow capacity d (.link (.deliver side.other)) (d.handling side.other info msg rest) :=
          .deliver side.other info msg rest hphase hout hready (hwaits side.other)
        exact hflow.not_rests hd hrests
      have hwire : (d.lane side).wire = 0 := by
        by_contra hsome
        have hflow : Flow capacity d (.read side.other) (d.onLane side.other.other Lane.read) := by
          refine .read side.other ?_ ?_ <;> rw [Side.other_other] <;> omega
        exact hflow.not_rests hd hrests
      refine ⟨?_, hwire, hinn⟩
      by_contra hline
      have hflow : Flow capacity d (.write side) (d.onLane side Lane.write) := .write side hline (by omega)
      exact hflow.not_rests hd hrests
  · intro hstill e hflows
    by_contra hsome
    obtain ⟨d', hstep⟩ := Option.ne_none_iff_exists'.mp hsome
    rcases hstill with hdrained | hlocked
    · rw [drained_iff hd] at hdrained
      cases flow_of_step hd hflows hstep with
      | deliver side info msg rest hphase hout hinn hfree => exact absurd (hdrained side.other).2.2 (by omega)
      | write side hline hwire => exact hline (hdrained side).1
      | read side hwire hinn => exact absurd (hdrained side.other).2.1 (by omega)
    · cases flow_of_step hd hflows hstep with
      | deliver side info msg rest hphase hout hinn hfree => exact hfree (hlocked side).1
      | write side hline hwire => exact absurd (hlocked side).2.1 (by omega)
      | read side hwire hinn => exact absurd (hlocked side.other).2.2 (by omega)

/-- How many messages are underway in a gridlock, at least. -/
def LOCKING (capacity : ℕ) : ℕ := 2 * (OUTBOX + 1 + capacity + (INBOX + 1))

theorem underway_of_gridlock (hd : Flowing d) (h : d.Gridlock capacity) : LOCKING capacity ≤ d.underway := by
  have hside : ∀ side, OUTBOX + 1 + capacity + (INBOX + 1) ≤ (d.session side).out.length := by
    intro side
    obtain ⟨hwaits, hwire, hinn⟩ := h side
    have hline := length_of_mainWaits hd hwaits
    rw [hd.fits side]
    omega
  have ha := hside .a
  have hb := hside .b
  unfold LOCKING underway
  omega

theorem underway_of_drifts {es : List DuplexEvent} (hd : Flowing d)
    (h : Drifts (step ar capacity) DuplexEvent.flows d es t) : t.underway ≤ d.underway := by
  induction es generalizing d with
  | nil =>
    obtain rfl := Option.some.inj h.2
    exact Nat.le_refl _
  | cons e es ih =>
    obtain ⟨hflows, u, hu, hrest⟩ := drifts_cons.mp h
    have hflow := flow_of_step hd hflows hu
    exact (ih (flowing_of_flow hd hflow) hrest).trans (work_of_flow hd hflow).2

/-! ### From a run of the two ends -/

/-- Both ends are in their main loops, and the connection holds. -/
def Connected (d : Duplex x) : Prop := d.link.broken = false ∧ ∀ side, (d.session side).phase.isRunning = true

theorem fits_initial (core : Side → AppCore x) (ip : IpAddr) (edge : ScreenEdge) (peer : IpAddr) (key : SessionKey) :
    (initial core ip edge peer key).Fits := by
  intro side
  cases side <;> rfl

theorem whole_of_connected (h : d.Connected) : d.link.Whole := by
  refine ⟨h.1, fun side => ?_⟩
  obtain ⟨info, hs⟩ := Phase.exists_of_isRunning (h.2 side)
  simp only [session] at hs
  rw [hs]
  rfl

theorem flowing_of_run {core : Side → AppCore x} {ip peer : IpAddr} {edge : ScreenEdge} {key : SessionKey}
    {es : List DuplexEvent} (hrun : run (step ar capacity) (initial core ip edge peer key) es = some d)
    (h : d.Connected) : Flowing d := by
  obtain ⟨ls, hls⟩ := run_link hrun
  have hsound := Link.run_sound hls (whole_of_connected h)
  refine ⟨h.1, fun side => Phase.exists_of_isRunning (h.2 side), fun side => ?_, hsound.writer, hsound.accepted, ?_⟩
  · obtain ⟨info, hs⟩ := Phase.exists_of_isRunning (h.2 side)
    rw [session, (hsound.slot side).named info.id.id (by simp only [session] at hs; rw [hs]; rfl)]
    rfl
  · exact run_invariant (P := Fits) (fits_initial core ip edge peer key) (fun _ _ _ ht hstep => step_fits hstep ht) es d hrun

theorem connected_of_flowing (hd : Flowing d) : d.Connected := by
  refine ⟨hd.holds, fun side => ?_⟩
  obtain ⟨info, hs⟩ := hd.running side
  rw [hs]
  rfl

theorem pings_of_drained {core : Side → AppCore x} {ip peer : IpAddr} {edge : ScreenEdge} {key : SessionKey}
    {es : List DuplexEvent} (hrun : run (step ar capacity) (initial core ip edge peer key) es = some d)
    (h : d.Connected) (hdrained : d.Drained) : ∀ side, (d.session side).pingSent = [] := by
  intro side
  obtain ⟨ls, hls⟩ := run_link hrun
  have hmatched : (d.link.session side).pingSent = (d.link.pinging side).underway :=
    (Link.run_sound hls (whole_of_connected h)).pings side
  have hmine := hdrained side
  have htheirs := hdrained side.other
  simp only [session] at hmine htheirs ⊢
  rw [hmatched]
  simp [RoundTrip.underway, Link.pinging, hmine, htheirs]

/-- In every run of the two ends, over a connection that takes at least one message each way, from every state in which
both are in their main loops: left to themselves, the writers, the readers and the main loops come to rest, in one state
and after the same number of moves whatever their order. There everything sent has been handled and every ping has been
answered, or each main loop waits for the other behind full queues, which takes `LOCKING` messages underway. -/
theorem settles_or_locks {core : Side → AppCore x} {ip peer : IpAddr} {edge : ScreenEdge} {key : SessionKey}
    {es : List DuplexEvent} (hrun : run (step ar capacity) (initial core ip edge peer key) es = some d)
    (hconnected : d.Connected) (hpos : 0 < capacity) :
    ∃ u, ((u.Drained ∧ ∀ side, (u.session side).pingSent = []) ∨
        u.Gridlock capacity ∧ LOCKING capacity ≤ d.underway) ∧
      ∀ fs t, Drifts (step ar capacity) DuplexEvent.flows d fs t →
        (Rests (step ar capacity) DuplexEvent.flows t → t = u) ∧
          ∃ gs, Drifts (step ar capacity) DuplexEvent.flows t gs u ∧ fs.length + gs.length + u.work = d.work := by
  have hd := flowing_of_run hrun hconnected
  obtain ⟨u, hu, hrests, hall⟩ := (settling ar capacity).settles hd
  obtain ⟨-, gs, hgs, -⟩ := hall [] d (drifts_nil _ _ d)
  refine ⟨u, ?_, hall⟩
  rcases (rests_iff hu hpos).mp hrests with hdrained | hlocked
  · have hrun' := (run_append_eq_some (step ar capacity)).mpr ⟨d, hrun, hgs.2⟩
    exact Or.inl ⟨hdrained, pings_of_drained hrun' (connected_of_flowing hu) hdrained⟩
  · exact Or.inr ⟨hlocked, (underway_of_gridlock hu hlocked).trans (underway_of_drifts hd hgs)⟩

/-- Alice and Bob, on the two ends of a new connection. -/
def meeting : Duplex demoCrates := initial Link.pairedCores (.v4 0x0A000002) .right (.v4 0x0A000003) demoKey

/-- The Hello of `side`. -/
def hello (side : Side) : List DuplexEvent := [.link (.act side .sayHello), .write side, .read side.other]

/-- From the Hello of the other end to the main loop. -/
def enter (side : Side) : List DuplexEvent :=
  [.link (.deliver side), .link (.act side .setSlot), .link (.act side .checkTrust),
    .link (.act side (.wire 1 ⟨0, 0, 1920, 1080⟩ none))]

def meet : List DuplexEvent := hello .a ++ hello .b ++ enter .a ++ enter .b

/-- Alice has opened the realtime channel and Bob pings: two of the three messages are answered, so 15 moves are left. -/
theorem settles_or_locks_meeting :
    ∃ d, run (step .exact 1) meeting (meet ++ [.link (.act .b .tick)]) = some d ∧ d.work = 15 ∧
      ∃ u, u.Drained ∧ (∀ side, (u.session side).pingSent = []) ∧
        ∀ fs t, Drifts (step .exact 1) DuplexEvent.flows d fs t →
          ∃ gs, Drifts (step .exact 1) DuplexEvent.flows t gs u := by
  obtain ⟨d, hrun, hwork, hunderway, hholds, hphases⟩ :
      ∃ d, run (step .exact 1) meeting (meet ++ [.link (.act .b .tick)]) = some d ∧ d.work = 15 ∧ d.underway = 3 ∧
        d.link.broken = false ∧ ∀ side, (d.session side).phase.isRunning = true := exists_run (by decide +kernel)
  obtain ⟨u, hu, hall⟩ := settles_or_locks hrun ⟨hholds, hphases⟩ Nat.one_pos
  have hfew : ¬ LOCKING 1 ≤ d.underway := by
    rw [hunderway]
    decide
  obtain ⟨hdrained, hpings⟩ := hu.resolve_right fun hlocked => hfew hlocked.2
  refine ⟨d, hrun, hwork, u, hdrained, hpings, fun fs t ht => ?_⟩
  obtain ⟨-, gs, hgs, -⟩ := hall fs t ht
  exact ⟨gs, hgs⟩

end Duplex

end ScreenLink
