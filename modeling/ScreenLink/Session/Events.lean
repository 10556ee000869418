import ScreenLink.Session.NodeMoves
import ScreenLink.Session.Threads

/-!
# What the UI is told

The events that a step of a session sends to the user interface, for every state and event (`Session.news`,
`step_events`), and those that the rest of the process sends (`Node.events_of_acts`, `Node.events_of_idle`).
-/

namespace ScreenLink

def HostOut.event? : HostOut → Option NetEvent
  | .event ev => some ev
  | _ => none

namespace Session

variable {x : Crates} {ar : Arith} {core : AppCore x} {s : Session} {event : SessionEvent} {p : AppCore x × Session}

/-- What the UI is told before the main loop. -/
def announces (core : AppCore x) (s : Session) (event : SessionEvent) : List NetEvent :=
  match s.phase, event with
  | .gate info, .checkTrust =>
    if core.trust.isTrusted info.id.id then []
    else [.peerState info.id.id info.name .pairing,
      .pairingPrompt info.id.id info.name (comparisonPin x core.identity.fingerprint info.id.id)]
  | .pairing info _, .recv (.pairCancel _) | .pairing info _, .cmd .cancel _ | .pairing info _, .cmd .disconnect _
  | .pairing info _, .cmdClosed => [.pairingResult info.id.id false]
  | .paired info, .store none => [.pairingResult info.id.id true, .status ("Paired with " ++ info.name)]
  | .authenticated info, .wire _ _ err => match s.role, err with
    | .controlled, _ => [.peerState info.id.id info.name (.connected false)]
    | .controller .., none => [.peerState info.id.id info.name (.connected true)]
    | .controller .., some _ => []
  | _, _ => []

/-- What the UI is told by the main loop and the teardown. -/
def notes (s : Session) (event : SessionEvent) : List NetEvent :=
  match s.phase, event with
  | .running info, .recv (.startMirror _) => [.status ("Viewing " ++ info.name ++ "'s screen")]
  | .running info, .recv (.pong nonce) => if s.pingSent.contains nonce then [.rtt info.id.id] else []
  | .running info, .cmd .startMirror _ =>
    if s.mirrorTx = none ∧ s.writer = true then [.status ("Sharing screen with " ++ info.name)] else []
  | .closing info _, .teardown => [.peerState info.id.id info.name .disconnected]
  | _, _ => []

/-- What the UI is told by the input loop. -/
def loopEvents (x : Crates) (ar : Arith) (s : Session) : SessionEvent → List NetEvent
  | .host edge captured edgeNow => s.host.toList.flatMap fun h =>
    ((hostIter x ar h.desktop h.input ⟨edge, false, captured, edgeNow⟩).out.drop h.input.out.length).filterMap
      HostOut.event?
  | _ => []

theorem loopEvents_of_loop (x : Crates) (ar : Arith) (s : Session) (event : SessionEvent) :
    ∀ ev ∈ s.loopEvents x ar event, (∃ text, ev = .status text) ∨ ∃ on, ev = .controlOnRemote on := by
  intro ev hev
  unfold loopEvents at hev
  split at hev
  case h_1 edge captured edgeNow =>
    obtain ⟨t, -, hloop⟩ := List.mem_flatMap.mp hev
    obtain ⟨news, hout, hnews⟩ := hostIter_out (x := x) ar t.desktop t.input ⟨edge, false, captured, edgeNow⟩
    rw [hout, List.drop_left] at hloop
    obtain ⟨o, ho, hevent⟩ := List.mem_filterMap.mp hloop
    rcases hnews o ho with hof | ⟨input, packet, rfl⟩
    · cases o with
      | event told =>
        obtain rfl := Option.some.inj hevent
        cases told with
        | status text => exact Or.inl ⟨text, rfl⟩
        | controlOnRemote on => exact Or.inr ⟨on, rfl⟩
        | _ => exact hof.elim
      | _ => cases hevent
    · cases hevent
  case h_2 => cases hev

/-- The events that a step sends to the UI. -/
def news (ar : Arith) (core : AppCore x) (s : Session) (event : SessionEvent) : List NetEvent :=
  s.announces core event ++ s.notes event ++ s.loopEvents x ar event

theorem events_forward (os : List HostOut) (core : AppCore x) (s : Session) :
    (os.foldl forwardOne (core, s)).1.events = core.events ++ os.filterMap HostOut.event? := by
  induction os generalizing core s with
  | nil => exact (List.append_nil _).symm
  | cons o os ih =>
    rw [List.foldl_cons]
    cases o with
    | event ev =>
      refine (ih (core.emit ev) s).trans ?_
      simp [AppCore.emit, HostOut.event?]
    | ctrl msg => exact ih core (s.send msg)
    | udp | suppress | park => exact ih core s

theorem events_runningRecv (core : AppCore x) {info : DeviceInfo} (hs : s.phase = .running info) (msg : ControlMsg) :
    (runningRecv core s info msg).1.events = core.events ++ s.notes (.recv msg) := by
  unfold notes
  rw [hs]
  cases msg with
  | setMode mode | realtimeOpen port epoch | edgeEnter px py =>
    change (handleInbound core s info _).1.events = _
    unfold handleInbound
    dsimp only
    cases s.role <;> exact (List.append_nil _).symm
  | pong nonce =>
    change (handleInbound core s info _).1.events = _
    unfold handleInbound
    simp only [List.contains_iff_mem]
    split_ifs
    · rfl
    · exact (List.append_nil _).symm
  | clipboard data =>
    cases data
    exact (List.append_nil _).symm
  | startMirror epoch => rfl
  | _ => exact (List.append_nil _).symm

theorem events_runningCmd (core : AppCore x) {info : DeviceInfo} (hs : s.phase = .running info) (cmd : SessionCmd)
    (epoch : BitVec 64) :
    (runningCmd core s info cmd epoch).1.events = core.events ++ s.notes (.cmd cmd epoch) := by
  unfold notes runningCmd
  rw [hs]
  cases cmd with
  | startMirror =>
    dsimp only
    cases s.mirrorTx with
    | some i => exact (List.append_nil _).symm
    | none =>
      cases s.writer with
      | false => exact (List.append_nil _).symm
      | true => rfl
  | stopMirror =>
    dsimp only
    cases s.mirrorTx <;> exact (List.append_nil _).symm
  | _ => exact (List.append_nil _).symm

theorem events_wire (core : AppCore x) {info : DeviceInfo} (hs : s.phase = .authenticated info) (epoch : BitVec 64)
    (desktop : Rect) (err : Option Error) :
    (wire core s info epoch desktop err).1.events = core.events ++ s.announces core (.wire epoch desktop err) := by
  unfold announces wire
  rw [hs]
  dsimp only
  cases s.role with
  | controlled => rfl
  | controller ip edge =>
    cases err with
    | none => rfl
    | some err => exact (List.append_nil _).symm

theorem step_events (h : s.step ar core event = some p) : p.1.events = core.events ++ s.news ar core event := by
  have hnews : ∀ evs, p.1.events = core.events ++ evs → s.news ar core event = evs →
      p.1.events = core.events ++ s.news ar core event := fun _ hevents heq => heq ▸ hevents
  have hnone : s.news ar core event = [] → p.1.events = core.events → p.1.events = core.events ++ s.news ar core event :=
    fun hnil hsame => hnews [] (hsame.trans (List.append_nil _).symm) hnil
  cases steps_of_step h with
  | checkTrust info hs =>
    refine hnews (s.announces core .checkTrust) ?_ (by simp [news, notes, loopEvents, hs])
    unfold checkTrust announces
    rw [hs]
    dsimp only
    split_ifs
    · exact (List.append_nil _).symm
    · exact List.append_assoc ..
  | pairingRecv info st msg hs =>
    refine hnews (s.announces core (.recv msg)) ?_ (by simp [news, notes, loopEvents, hs])
    unfold announces
    rw [hs]
    cases msg with
    | pairCancel reason => rfl
    | _ => exact (List.append_nil _).symm
  | pairingCmd info st cmd epoch hs =>
    refine hnews (s.announces core (.cmd cmd epoch)) ?_ (by simp [news, notes, loopEvents, hs])
    unfold announces
    rw [hs]
    cases cmd with
    | cancel | disconnect => rfl
    | _ => exact (List.append_nil _).symm
  | pairingCmdClosed info st hs => exact hnews _ rfl (by simp [news, announces, notes, loopEvents, hs])
  | store info err hs =>
    refine hnews (s.announces core (.store err)) ?_ (by simp [news, notes, loopEvents, hs])
    unfold announces
    rw [hs]
    cases err with
    | none => exact List.append_assoc ..
    | some err => exact (List.append_nil _).symm
  | wire info epoch desktop err hs =>
    exact hnews _ (events_wire core hs epoch desktop err) (by simp [news, notes, loopEvents])
  | runningRecv info msg hs =>
    exact hnews _ (events_runningRecv core hs msg) (by simp [news, announces, loopEvents, hs])
  | runningCmd info cmd epoch hs =>
    exact hnews _ (events_runningCmd core hs cmd epoch) (by simp [news, announces, loopEvents, hs])
  | teardown info result hs => exact hnews _ rfl (by simp [news, announces, notes, loopEvents, hs])
  | host t edge captured edgeNow hhost hlive =>
    refine hnews (s.loopEvents x ar (.host edge captured edgeNow)) ?_ (by simp [news, announces, notes])
    refine (events_forward _ core _).trans ?_
    simp [loopEvents, hhost]
  | sayHello hs | startClosed err hs | recvHello msg hs | helloClosed err hs | setSlot info hs | pairingClosed info st err hs
  | runningClosed info err hs | runningCmdClosed info hs | tick info hs | clipExit result hs =>
    exact hnone (by simp [news, announces, notes, loopEvents, hs]) rfl
  | writerDied hslot => exact hnone (by simp [news, announces, notes, loopEvents]) rfl
  | hostExit t hhost hstop => exact hnone (by simp [news, announces, notes, loopEvents]) rfl
  | sender i ev t t' ht hstep => exact hnone (by simp [news, announces, notes, loopEvents]) rfl
  | clipboard text hclip => exact hnone (by simp [news, announces, notes, loopEvents]) rfl

end Session

namespace Node

variable {x : Crates} {ar : Arith} {n n' : Node x} {e : NodeEvent}

/-- What `run` tells the UI of a controller session that has ended with an error. -/
def reports (x : Crates) (name : String) (s : Session) : List NetEvent :=
  match s.role, s.phase with
  | .controller .., .ended (some error) => [.peerState "" name (.error (error.text x))]
  | _, _ => []

theorem events_report (core : AppCore x) (name : String) (s : Session) :
    (report core name s).events = core.events ++ reports x name s := by
  unfold report reports
  cases s.role with
  | controlled => exact (List.append_nil _).symm
  | controller ip edge =>
    cases s.phase with
    | ended result =>
      cases result with
      | none => exact (List.append_nil _).symm
      | some error => rfl
    | _ => exact (List.append_nil _).symm

/-- What the dispatcher tells the UI of a connection. -/
def dials (n : Node x) : NodeEvent → List NetEvent
  | .connectFailed i error => match n.handles[i]? with
    | some h => [.peerState "" h.name (.error error.text)]
    | none => []
  | .receive => match n.commands with
    | ⟨.connect _ name _, _⟩ :: _ => [.peerState "" name .connecting]
    | _ => []
  | _ => []

/-- A session's step tells the UI its news, and of its end when it is over. -/
theorem events_of_acts (h : step ar n e = some n') {i : ℕ} {event : SessionEvent} (hacts : n.acts e = some (i, event))
    {s : Session} (hs : n.session? i = some s) :
    ∃ name p, s.step ar n.core event = some p ∧ n'.session? i = some p.2 ∧ n'.core.events = n.core.events ++
      (s.news ar n.core event ++ if s.phase.finished then [] else reports x name p.2) := by
  have hcore : ∀ (name : String) (queue : List Queued) (p : AppCore x × Session), s.step ar n.core event = some p →
      (n.afterStep i name s queue event p).core.events = n.core.events ++
        (s.news ar n.core event ++ if s.phase.finished then [] else reports x name p.2) := by
    intro name queue p hp
    have hevents := Session.step_events hp
    unfold afterStep
    dsimp only
    split_ifs
    · rw [List.append_nil]
      exact hevents
    · rw [← List.append_assoc, ← hevents]
      exact events_report p.1 name p.2
  cases steps_of_step h with
  | command j epoch t name q queue p hh hstep =>
    simp only [acts, hh, Option.some.injEq, Prod.mk.injEq] at hacts
    obtain ⟨rfl, rfl⟩ := hacts
    obtain rfl : t = s := Option.some.inj ((session?_of_handle hh).symm.trans hs)
    exact ⟨name, p, hstep, (session?_afterStep (List.getElem?_eq_some_iff.mp hh).1).trans (if_pos rfl),
      hcore name queue p hstep⟩
  | session j event' t name queue p hh hevent hstep =>
    simp only [acts, Option.some.injEq, Prod.mk.injEq] at hacts
    obtain ⟨rfl, rfl⟩ := hacts
    obtain rfl : t = s := Option.some.inj ((session?_of_handle hh).symm.trans hs)
    exact ⟨name, p, hstep, (session?_afterStep (List.getElem?_eq_some_iff.mp hh).1).trans (if_pos rfl),
      hcore name queue p hstep⟩
  | _ => cases hacts

theorem events_of_idle (h : step ar n e = some n') (hacts : n.acts e = none) :
    n'.core.events = n.core.events ++ n.dials e := by
  cases steps_of_step h with
  | connectFailed i error ip edge name queue hh => simp [dials, hh, AppCore.emit]
  | receive c rest hd hc =>
    obtain ⟨cmd, answers⟩ := c
    simp only [dials, hc]
    cases cmd with
    | connect ip name edge => rfl
    | _ => exact (List.append_nil _).symm
  | visit fingerprint cmd next targets hd =>
    unfold Node.visit
    split <;> exact (List.append_nil _).symm
  | send cmd targets n' hd hsend =>
    unfold sendTo at hsend
    split at hsend
    case h_1 => exact Option.some.inj hsend ▸ (List.append_nil _).symm
    case h_2 i rest =>
      split at hsend
      case h_1 => cases hsend
      case h_2 t hh => split_ifs at hsend <;> exact Option.some.inj hsend ▸ (List.append_nil _).symm
  | command i epoch s name q queue p hh hstep => simp [acts, hh] at hacts
  | session i event s name queue p hh hevent hstep => cases hacts
  | datagram packet =>
    refine Eq.trans ?_ (List.append_nil _).symm
    change (Node.datagram n.core packet).events = _
    unfold Node.datagram
    split
    · rfl
    · dsimp only
      split
      · rfl
      · split <;> rfl
  | _ => exact (List.append_nil _).symm

end Node

end ScreenLink
