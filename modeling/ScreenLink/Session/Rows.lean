import ScreenLink.Pairing.Prompts
import ScreenLink.Session.Events
import ScreenLink.Session.Inbound

/-!
# The rows of the window

The UI has a row for each fingerprint, with the state of the last event about it. A row that says Connected belongs to a
session that has entered its main loop and has not been torn down, and says who is in control (`connected_is_live`). The
converse needs more, since the sessions of one fingerprint share its row: each such session has its row if and only if,
while it lives, no event says otherwise of its fingerprint (`live_is_connected_iff`).
-/

namespace ScreenLink

namespace ScreenLinkApp

/-- What the row of the fingerprint says. -/
def stateOf (app : ScreenLinkApp) (fp : String) : Option ConnState := (app.peers.lookup fp).map PeerRow.state

/-- What an event says of the fingerprint. -/
def tellsOf (fp : String) : NetEvent → Option ConnState
  | .peerState fingerprint _ state => if fingerprint = fp then some state else none
  | _ => none

theorem lookup_map_row (peers : List (String × PeerRow)) (fingerprint fp : String) (row : PeerRow) :
    (peers.map fun entry => if entry.1 == fingerprint then (fingerprint, row) else entry).lookup fp =
      if fingerprint = fp then (peers.lookup fp).map fun _ => row else peers.lookup fp := by
  induction peers with
  | nil => simp
  | cons entry peers ih =>
    rw [List.map_cons, List.lookup_cons, List.lookup_cons, ih]
    by_cases hentry : entry.1 = fingerprint
    · by_cases hfp : fingerprint = fp
      · simp [hentry, hfp]
      · have hne : (fp == fingerprint) = false := beq_false_of_ne (Ne.symm hfp)
        simp [hentry, hfp, hne]
    · have hne : (entry.1 == fingerprint) = false := beq_false_of_ne hentry
      rw [hne, if_neg Bool.false_ne_true]
      by_cases hfp : fingerprint = fp
      · subst hfp
        have hne' : (fingerprint == entry.1) = false := beq_false_of_ne (Ne.symm hentry)
        simp [hne']
      · simp only [if_neg hfp]

theorem lookup_setPeer (peers : List (String × PeerRow)) (fingerprint fp : String) (row : PeerRow) :
    (setPeer peers fingerprint row).lookup fp = if fingerprint = fp then some row else peers.lookup fp := by
  unfold setPeer
  split_ifs with hany hfp hfp
  · obtain ⟨entry, hmem, hentry⟩ := List.any_eq_true.mp hany
    rw [lookup_map_row, if_pos hfp]
    have hsome : (peers.lookup fp).isSome = true :=
      List.lookup_isSome_iff.mpr ⟨entry, hmem, by rw [← hfp, eq_of_beq hentry, beq_self_eq_true]⟩
    obtain ⟨old, hold⟩ := Option.isSome_iff_exists.mp hsome
    rw [hold, Option.map_some]
  · rw [lookup_map_row, if_neg hfp]
  · have hnone : peers.lookup fp = none := by
      rw [List.lookup_eq_none_iff]
      intro entry hmem
      refine bne_iff_ne.mpr fun heq => hany (List.any_eq_true.mpr ⟨entry, hmem, ?_⟩)
      exact beq_iff_eq.mpr (heq.symm.trans hfp.symm)
    rw [List.lookup_append, hnone, hfp]
    simp
  · have hne : (fp == fingerprint) = false := beq_false_of_ne (Ne.symm hfp)
    simp [List.lookup_append, List.lookup_cons, hne]

theorem stateOf_handle (app : ScreenLinkApp) (event : NetEvent) (fp : String) :
    (app.handle event).stateOf fp = (tellsOf fp event).or (app.stateOf fp) := by
  cases event with
  | peerState fingerprint name state =>
    unfold handle stateOf tellsOf
    dsimp only
    rw [lookup_setPeer]
    split_ifs <;> rfl
  | pairingResult fingerprint ok =>
    unfold handle
    dsimp only
    split_ifs <;> rfl
  | _ => rfl

theorem stateOf_drain (app : ScreenLinkApp) (events : List NetEvent) (fp : String) :
    (app.drainEvents events).stateOf fp = ((events.filterMap (tellsOf fp)).getLast?).or (app.stateOf fp) := by
  unfold drainEvents
  induction events generalizing app with
  | nil => rfl
  | cons event events ih =>
    rw [List.foldl_cons, ih, stateOf_handle, List.filterMap_cons]
    cases tellsOf fp event with
    | none => rfl
    | some state => simp [List.getLast?_cons]

end ScreenLinkApp

open ScreenLinkApp

namespace Session

variable {x : Crates} {ar : Arith} {core : AppCore x} {s : Session} {event : SessionEvent} {p : AppCore x × Session}

/-- The fingerprint of a session that has entered its main loop and has not been torn down. -/
def live (s : Session) : Option String :=
  match s.phase with
  | .running info | .closing info _ => some info.id.id
  | _ => none

/-- The fingerprint of which the UI is told that it is not connected. -/
def hides (core : AppCore x) (s : Session) (event : SessionEvent) : Option String :=
  match s.phase, event with
  | .gate info, .checkTrust => if core.trust.isTrusted info.id.id then none else some info.id.id
  | .closing info _, .teardown => some info.id.id
  | _, _ => none

/-- The rows are told of one state of one fingerprint, or of none. -/
def Tells (evs : List NetEvent) (fp : String) (state : ConnState) : Prop :=
  ∀ fp', evs.filterMap (tellsOf fp') = if fp = fp' then [state] else []

/-- What a step does to the rows. -/
inductive Shows (s : Session) (s' : Session) (evs : List NetEvent) : Option String → Prop
  | opens (fp : String) (hwas : s.live = none) (hnow : s'.live = some fp)
    (htells : Tells evs fp (.connected s.role.controls)) : Shows s s' evs none
  | closes (fp : String) (hwas : s.live = some fp) (hnow : s'.live = none) (htells : Tells evs fp .disconnected) :
    Shows s s' evs (some fp)
  | asks (fp : String) (hwas : s.live = none) (hnow : s'.live = none) (htells : Tells evs fp .pairing) :
    Shows s s' evs (some fp)
  | quiet (hsame : s'.live = s.live) (htells : ∀ fp, evs.filterMap (tellsOf fp) = []) : Shows s s' evs none

theorem tells_loopEvents (x : Crates) (ar : Arith) (s : Session) (event : SessionEvent) (fp : String) :
    (s.loopEvents x ar event).filterMap (tellsOf fp) = [] := by
  rw [List.filterMap_eq_nil_iff]
  intro ev hev
  rcases loopEvents_of_loop x ar s event ev hev with ⟨text, rfl⟩ | ⟨on, rfl⟩ <;> rfl

theorem shows_running {info : DeviceInfo} (hs : s.phase = .running info)
    (hnow : p.2.phase = .running info ∨ ∃ result, p.2.phase = .closing info result) :
    Shows s p.2 (s.news ar core event) (s.hides core event) := by
  have hhides : s.hides core event = none := by simp [hides, hs]
  rw [hhides]
  refine .quiet ?_ fun fp => ?_
  · rcases hnow with hnow | ⟨result, hnow⟩ <;> simp [live, hs, hnow]
  · have hnotes : (s.notes event).filterMap (tellsOf fp) = [] := by
      unfold notes
      rw [hs]
      cases event with
      | recv msg =>
        cases msg with
        | pong nonce =>
          dsimp only
          split_ifs <;> rfl
        | _ => rfl
      | cmd cmd epoch =>
        cases cmd with
        | startMirror =>
          dsimp only
          split_ifs <;> rfl
        | _ => rfl
      | _ => rfl
    have hannounces : s.announces core event = [] := by simp [announces, hs]
    rw [news, List.filterMap_append, List.filterMap_append, hannounces, hnotes, tells_loopEvents]
    rfl

theorem live_afterSelect {info : DeviceInfo} {st : PairingState} (h : s.phase = afterSelect info st) : s.live = none := by
  unfold live
  rw [h]
  unfold afterSelect
  split_ifs <;> rfl

theorem shows_quiet (hhides : s.hides core event = none) (hsame : p.2.live = s.live) (hnotes : s.notes event = [])
    (hannounces : ∀ fp, (s.announces core event).filterMap (tellsOf fp) = []) :
    Shows s p.2 (s.news ar core event) (s.hides core event) := by
  rw [hhides]
  refine .quiet hsame fun fp => ?_
  rw [news, List.filterMap_append, List.filterMap_append, hannounces, hnotes, tells_loopEvents]
  rfl

theorem shows_silent (hhides : s.hides core event = none) (hsame : p.2.live = s.live) (hnotes : s.notes event = [])
    (hannounces : s.announces core event = []) : Shows s p.2 (s.news ar core event) (s.hides core event) :=
  shows_quiet hhides hsame hnotes fun fp => by rw [hannounces]; rfl

theorem shows_checkTrust {info : DeviceInfo} (hs : s.phase = .gate info) :
    Shows s (checkTrust core s info).2 (s.news ar core .checkTrust) (s.hides core .checkTrust) := by
  cases htrusted : core.trust.isTrusted info.id.id with
  | true =>
    exact shows_silent (by simp [hides, hs, htrusted]) (by simp [live, hs, checkTrust, htrusted]) (by simp [notes, hs])
      (by simp [announces, hs, htrusted])
  | false =>
    have hhides : s.hides core .checkTrust = some info.id.id := by simp [hides, hs, htrusted]
    rw [hhides]
    refine .asks info.id.id (by simp [live, hs]) (by simp [live, checkTrust, htrusted, beginPairing]) fun fp => ?_
    simp only [news, announces, notes, loopEvents, hs, htrusted, Bool.false_eq_true, if_false, List.append_nil]
    by_cases hfp : info.id.id = fp <;> simp [tellsOf, hfp]

theorem shows_wire {info : DeviceInfo} (hs : s.phase = .authenticated info) (epoch : BitVec 64) (desktop : Rect)
    (err : Option Error) : Shows s (wire core s info epoch desktop err).2 (s.news ar core (.wire epoch desktop err))
      (s.hides core (.wire epoch desktop err)) := by
  have hhides : s.hides core (.wire epoch desktop err) = none := by simp [hides, hs]
  rw [hhides]
  have hconnected : ∀ fp controlling, [NetEvent.peerState info.id.id info.name (.connected controlling)].filterMap
      (tellsOf fp) = if info.id.id = fp then [.connected controlling] else [] := by
    intro fp controlling
    by_cases hfp : info.id.id = fp <;> simp [tellsOf, hfp]
  unfold wire
  dsimp only
  cases hrole : s.role with
  | controlled =>
    refine .opens info.id.id (by simp [live, hs]) rfl fun fp => ?_
    simpa [news, announces, notes, loopEvents, hs, hrole, Role.controls] using hconnected fp false
  | controller ip edge =>
    cases err with
    | none =>
      refine .opens info.id.id (by simp [live, hs]) rfl fun fp => ?_
      simpa [news, announces, notes, loopEvents, hs, hrole, Role.controls] using hconnected fp true
    | some err =>
      refine .quiet (by simp [live, hs, Session.fail]) fun fp => ?_
      simp [news, announces, notes, loopEvents, hs, hrole]

theorem shows_teardown {info : DeviceInfo} {result : Option SessionError} (hs : s.phase = .closing info result) :
    Shows s (teardown core s info result).2 (s.news ar core .teardown) (s.hides core .teardown) := by
  have hhides : s.hides core .teardown = some info.id.id := by simp [hides, hs]
  rw [hhides]
  refine .closes info.id.id (by simp [live, hs]) rfl fun fp => ?_
  simp only [news, announces, notes, loopEvents, hs, List.nil_append, List.append_nil]
  by_cases hfp : info.id.id = fp <;> simp [tellsOf, hfp]

theorem shows_pairingRecv {info : DeviceInfo} {st : PairingState} (hs : s.phase = .pairing info st) (msg : ControlMsg) :
    Shows s (pairingRecv core s info st msg).2 (s.news ar core (.recv msg)) (s.hides core (.recv msg)) := by
  refine shows_quiet (by simp [hides, hs]) ?_ (by simp [notes, hs]) fun fp => ?_
  · cases msg with
    | pairBegin => exact (live_afterSelect rfl).trans (by simp [live, hs])
    | pairConfirm => exact (live_afterSelect rfl).trans (by simp [live, hs])
    | _ => simp [live, hs, pairingRecv, Session.fail]
  · unfold announces
    rw [hs]
    cases msg <;> rfl

theorem shows_pairingCmd {info : DeviceInfo} {st : PairingState} (hs : s.phase = .pairing info st) (cmd : SessionCmd)
    (epoch : BitVec 64) :
    Shows s (pairingCmd core s info st cmd).2 (s.news ar core (.cmd cmd epoch)) (s.hides core (.cmd cmd epoch)) := by
  refine shows_quiet (by simp [hides, hs]) ?_ (by simp [notes, hs]) fun fp => ?_
  · cases cmd with
    | cancel | disconnect => simp [live, hs, pairingCmd, pairingCancel, Session.fail]
    | _ => exact (live_afterSelect rfl).trans (by simp [live, hs])
  · unfold announces
    rw [hs]
    cases cmd <;> rfl

theorem shows_of_step (h : s.step ar core event = some p) : Shows s p.2 (s.news ar core event) (s.hides core event) := by
  cases steps_of_step h with
  | checkTrust info hs => exact shows_checkTrust hs
  | wire info epoch desktop err hs => exact shows_wire hs epoch desktop err
  | teardown info result hs => exact shows_teardown hs
  | runningRecv info msg hs => exact shows_running hs (hs ▸ phase_runningRecv core s info msg)
  | runningClosed info err hs | runningCmdClosed info hs => exact shows_running hs (Or.inr ⟨_, rfl⟩)
  | runningCmd info cmd epoch hs =>
    exact shows_running hs ((hs ▸ phase_runningCmd core s info cmd epoch).imp_right fun hclosing => ⟨none, hclosing⟩)
  | tick info hs =>
    refine shows_running hs ?_
    unfold tick
    dsimp only
    split_ifs
    · exact Or.inr ⟨none, rfl⟩
    · exact Or.inl hs
  | recvHello msg hs =>
    refine shows_silent (by simp [hides, hs]) ?_ (by simp [notes, hs]) (by simp [announces, hs])
    have hwas : s.live = none := by simp [live, hs]
    rw [hwas]
    unfold recvHello
    split
    · split_ifs <;> rfl
    · rfl
  | pairingRecv info st msg hs => exact shows_pairingRecv hs msg
  | pairingCmd info st cmd epoch hs => exact shows_pairingCmd hs cmd epoch
  | pairingCmdClosed info st hs =>
    exact shows_quiet (by simp [hides, hs]) (by simp [live, hs, pairingCancel, Session.fail]) (by simp [notes, hs])
      fun fp => by simp [announces, hs, tellsOf]
  | store info err hs =>
    refine shows_quiet (by simp [hides, hs]) ?_ (by simp [notes, hs]) fun fp => ?_
    · cases err <;> simp [live, hs, store, Session.fail]
    · unfold announces
      rw [hs]
      cases err <;> rfl
  | sayHello hs | startClosed err hs | helloClosed err hs | setSlot info hs | pairingClosed info st err hs =>
    exact shows_silent (by simp [hides, hs]) (by simp [live, hs, Session.sayHello, Session.fail, Session.setSlot])
      (by simp [notes, hs]) (by simp [announces, hs])
  | clipExit result hs => exact shows_silent (by simp [hides, hs]) rfl (by simp [notes, hs]) (by simp [announces, hs])
  | host t edge captured edgeNow hhost hlive =>
    obtain ⟨events, out, heq⟩ := hostStep_eq ar core s t edge captured edgeNow
    exact shows_silent (by simp [hides]) (by rw [heq]; rfl) (by simp [notes]) (by simp [announces])
  | writerDied hslot => exact shows_silent (by simp [hides]) rfl (by simp [notes]) (by simp [announces])
  | hostExit t hhost hstop => exact shows_silent (by simp [hides]) rfl (by simp [notes]) (by simp [announces])
  | sender i ev t t' ht hstep => exact shows_silent (by simp [hides]) rfl (by simp [notes]) (by simp [announces])
  | clipboard text hclip => exact shows_silent (by simp [hides]) rfl (by simp [notes]) (by simp [announces])

end Session

namespace Node

open Machine

variable {x : Crates} {ar : Arith} {core : AppCore x} {es : List NodeEvent} {n n' : Node x} {e : NodeEvent}

/-- The window, once the UI has handled every event. -/
def window (n : Node x) : ScreenLinkApp := ScreenLinkApp.new.drainEvents n.core.events

theorem stateOf_window (n : Node x) (fp : String) :
    n.window.stateOf fp = (n.core.events.filterMap (tellsOf fp)).getLast? :=
  (stateOf_drain _ _ _).trans (Option.or_none)

/-- A row that says Connected is that of a live session, with its side of the control. -/
def ConnectedIsLive (n : Node x) : Prop :=
  ∀ fp controlling, n.window.stateOf fp = some (.connected controlling) →
    ∃ i s, n.session? i = some s ∧ s.live = some fp ∧ s.role.controls = controlling

/-- A live session has its row, but for the row of the connections that have no fingerprint yet. -/
def LiveIsConnected (n : Node x) : Prop :=
  ∀ i s fp, n.session? i = some s → s.live = some fp → fp ≠ "" →
    ∃ controlling, n.window.stateOf fp = some (.connected controlling)

/-- A session is torn down, or asks for a pairing, while another session with its fingerprint is live. -/
def HidesLive (n : Node x) (e : NodeEvent) : Prop :=
  ∃ i event s fp, n.acts e = some (i, event) ∧ n.session? i = some s ∧ s.hides n.core event = some fp ∧ fp ≠ "" ∧
    ∃ j t, j ≠ i ∧ n.session? j = some t ∧ t.live = some fp

theorem rows_of_acts (h : step ar n e = some n') {i : ℕ} {event : SessionEvent} (hacts : n.acts e = some (i, event)) :
    ∃ s, ∃ p : AppCore x × Session, n.session? i = some s ∧ (∀ j, n'.session? j = if j = i then some p.2 else n.session? j) ∧
      p.2.role = s.role ∧ s.Shows p.2 (s.news ar n.core event) (s.hides n.core event) ∧
      ∀ fp, ∃ ends, n'.core.events.filterMap (tellsOf fp) = n.core.events.filterMap (tellsOf fp) ++
          ((s.news ar n.core event).filterMap (tellsOf fp) ++ ends) ∧
        (ends = [] ∨ (∃ text, ends = [.error text]) ∧ fp = "") := by
  obtain ⟨s, p, hs, hp, hsessions, -⟩ := step_of_acts h hacts
  obtain ⟨name, p', hp', -, hevents⟩ := events_of_acts h hacts hs
  obtain rfl : p = p' := Option.some.inj (hp.symm.trans hp')
  refine ⟨s, p, hs, hsessions, (Session.step_const hp).1, Session.shows_of_step hp, fun fp => ?_⟩
  refine ⟨(if s.phase.finished then [] else reports x name p.2).filterMap (tellsOf fp), ?_, ?_⟩
  · rw [hevents, List.filterMap_append, List.filterMap_append]
  · split_ifs
    · exact Or.inl rfl
    · unfold reports
      split
      · rename_i error _ _
        by_cases hfp : fp = ""
        · exact Or.inr ⟨⟨error.text x, by simp [tellsOf, hfp]⟩, hfp⟩
        · exact Or.inl (by simp [tellsOf, Ne.symm hfp])
      · exact Or.inl rfl

theorem rows_of_idle (h : step ar n e = some n') (hacts : n.acts e = none) (fp : String) :
    n'.core.events.filterMap (tellsOf fp) = n.core.events.filterMap (tellsOf fp) ++ (n.dials e).filterMap (tellsOf fp) ∧
      ((n.dials e).filterMap (tellsOf fp) = [] ∨ fp = "" ∧ ((n.dials e).filterMap (tellsOf fp) = [.connecting] ∨
        ∃ text, (n.dials e).filterMap (tellsOf fp) = [.error text])) := by
  refine ⟨by rw [events_of_idle h hacts, List.filterMap_append], ?_⟩
  by_cases hfp : fp = ""
  · subst hfp
    unfold dials
    split
    · split
      · exact Or.inr ⟨rfl, Or.inr ⟨_, rfl⟩⟩
      · exact Or.inl rfl
    · split
      · exact Or.inr ⟨rfl, Or.inl rfl⟩
      · exact Or.inl rfl
    · exact Or.inl rfl
  · left
    unfold dials
    split
    · split
      · simp [tellsOf, Ne.symm hfp]
      · rfl
    · split
      · simp [tellsOf, Ne.symm hfp]
      · rfl
    · rfl

theorem live_of_idle (h : step ar n e = some n') (hacts : n.acts e = none) {i : ℕ} {s : Session} {fp : String}
    (hs : n'.session? i = some s) (hlive : s.live = some fp) : n.session? i = some s := by
  rcases session?_of_idle h hacts i with hsame | ⟨-, role, ip, key, cert, hnew⟩
  · exact hsame.symm.trans hs
  · obtain rfl := Option.some.inj (hnew.symm.trans hs)
    cases hlive

theorem step_connectedIsLive (h : step ar n e = some n') (hn : ConnectedIsLive n) : ConnectedIsLive n' := by
  intro fp controlling hshown
  rw [stateOf_window] at hshown
  cases hacts : n.acts e with
  | none =>
    obtain ⟨htold, hdials⟩ := rows_of_idle h hacts fp
    rw [htold] at hshown
    rcases hdials with hnone | ⟨-, hdial | ⟨text, hdial⟩⟩
    · rw [hnone, List.append_nil, ← stateOf_window] at hshown
      obtain ⟨i, s, hs, hlive, hcontrols⟩ := hn fp controlling hshown
      rcases session?_of_idle h hacts i with hsame | ⟨hnone, -⟩
      · exact ⟨i, s, hsame.trans hs, hlive, hcontrols⟩
      · cases hnone.symm.trans hs
    · rw [hdial, List.getLast?_concat] at hshown
      cases hshown
    · rw [hdial, List.getLast?_concat] at hshown
      cases hshown
  | some act =>
    obtain ⟨i, event⟩ := act
    obtain ⟨s, p, hs, hsessions, hrole, hshows, hrows⟩ := rows_of_acts h hacts
    obtain ⟨ends, htold, hends⟩ := hrows fp
    rw [htold] at hshown
    -- a row that the step does not tell of was there, and its session lives on
    have hold : (s.news ar n.core event).filterMap (tellsOf fp) = [] → ends = [] →
        (s.live = some fp → p.2.live = some fp) →
          ∃ j t, n'.session? j = some t ∧ t.live = some fp ∧ t.role.controls = controlling := by
      intro hnews hnone hstays
      rw [hnews, hnone, List.append_nil, List.append_nil, ← stateOf_window] at hshown
      obtain ⟨j, t, ht, hlive, hcontrols⟩ := hn fp controlling hshown
      by_cases hji : j = i
      · subst hji
        obtain rfl : s = t := Option.some.inj (hs.symm.trans ht)
        exact ⟨j, p.2, (hsessions j).trans (if_pos rfl), hstays hlive, hrole ▸ hcontrols⟩
      · exact ⟨j, t, ((hsessions j).trans (if_neg hji)).trans ht, hlive, hcontrols⟩
    rcases hends with hnone | ⟨⟨text, hend⟩, -⟩
    · generalize s.hides n.core event = hidden at hshows
      cases hshows with
      | opens fp' hwas hnow htells =>
        by_cases hfp : fp' = fp
        · subst hfp
          rw [htells fp', if_pos rfl, hnone, List.append_nil, List.getLast?_concat] at hshown
          cases hshown
          exact ⟨i, p.2, (hsessions i).trans (if_pos rfl), hnow, by rw [hrole]⟩
        · exact hold ((htells fp).trans (if_neg hfp)) hnone fun hlive => by rw [hwas] at hlive; cases hlive
      | closes fp' hwas hnow htells =>
        by_cases hfp : fp' = fp
        · rw [htells fp, if_pos hfp, hnone, List.append_nil, List.getLast?_concat] at hshown
          cases hshown
        · exact hold ((htells fp).trans (if_neg hfp)) hnone fun hlive =>
            absurd (Option.some.inj (hwas.symm.trans hlive)) hfp
      | asks fp' hwas hnow htells =>
        by_cases hfp : fp' = fp
        · rw [htells fp, if_pos hfp, hnone, List.append_nil, List.getLast?_concat] at hshown
          cases hshown
        · exact hold ((htells fp).trans (if_neg hfp)) hnone fun hlive => by rw [hwas] at hlive; cases hlive
      | quiet hsame htells => exact hold (htells fp) hnone fun hlive => hsame.trans hlive
    · rw [hend, ← List.append_assoc, List.getLast?_concat] at hshown
      cases hshown

theorem step_liveIsConnected (h : step ar n e = some n') (hn : LiveIsConnected n) :
    LiveIsConnected n' ↔ ¬ HidesLive n e := by
  cases hacts : n.acts e with
  | none =>
    refine iff_of_true (fun i s fp hs hlive hfp => ?_) ?_
    · obtain ⟨htold, hdials⟩ := rows_of_idle h hacts fp
      obtain ⟨controlling, hshown⟩ := hn i s fp (live_of_idle h hacts hs hlive) hlive hfp
      have hnone := hdials.resolve_right fun hempty => hfp hempty.1
      refine ⟨controlling, ?_⟩
      rw [stateOf_window, htold, hnone, List.append_nil, ← stateOf_window]
      exact hshown
    · rintro ⟨i, event, s, fp, hsome, -⟩
      cases hacts.symm.trans hsome
  | some act =>
    obtain ⟨i, event⟩ := act
    obtain ⟨s, p, hs, hsessions, hrole, hshows, hrows⟩ := rows_of_acts h hacts
    constructor
    · rintro hn' ⟨i', event', s', fp, hsome, hs', hhides, hfp, j, t, hji, ht, hlive⟩
      cases hacts.symm.trans hsome
      obtain rfl : s = s' := Option.some.inj (hs.symm.trans hs')
      obtain ⟨ends, htold, hends⟩ := hrows fp
      have hnone := hends.resolve_right fun hempty => hfp hempty.2
      obtain ⟨controlling, hshown⟩ := hn' j t fp (((hsessions j).trans (if_neg hji)).trans ht) hlive hfp
      rw [stateOf_window, htold, hnone, List.append_nil] at hshown
      rw [hhides] at hshows
      cases hshows with
      | closes _ hwas hnow htells =>
        rw [htells fp, if_pos rfl, List.getLast?_concat] at hshown
        cases hshown
      | asks _ hwas hnow htells =>
        rw [htells fp, if_pos rfl, List.getLast?_concat] at hshown
        cases hshown
    · intro hnot j t fp ht hlive hfp
      obtain ⟨ends, htold, hends⟩ := hrows fp
      have hnone := hends.resolve_right fun hempty => hfp hempty.2
      rw [stateOf_window, htold, hnone, List.append_nil]
      -- a row that the step does not tell of stays
      have hold : (s.news ar n.core event).filterMap (tellsOf fp) = [] → (∃ k u, n.session? k = some u ∧ u.live = some fp) →
          ∃ controlling, (n.core.events.filterMap (tellsOf fp) ++
            (s.news ar n.core event).filterMap (tellsOf fp)).getLast? = some (.connected controlling) := by
        rintro hnews ⟨k, u, hu, hulive⟩
        obtain ⟨controlling, hshown⟩ := hn k u fp hu hulive hfp
        refine ⟨controlling, ?_⟩
        rw [hnews, List.append_nil, ← stateOf_window]
        exact hshown
      by_cases hji : j = i
      · subst hji
        rw [hsessions j, if_pos rfl] at ht
        cases ht
        generalize s.hides n.core event = hidden at hshows
        cases hshows with
        | opens fp' hwas hnow htells =>
          obtain rfl : fp' = fp := Option.some.inj (hnow.symm.trans hlive)
          exact ⟨_, by rw [htells fp', if_pos rfl, List.getLast?_concat]⟩
        | closes fp' hwas hnow htells => cases hnow.symm.trans hlive
        | asks fp' hwas hnow htells => cases hnow.symm.trans hlive
        | quiet hsame htells => exact hold (htells fp) ⟨j, s, hs, hsame.symm.trans hlive⟩
      · rw [hsessions j, if_neg hji] at ht
        have hother : ∀ fp', s.hides n.core event = some fp' → fp' ≠ fp := by
          rintro fp' hhides rfl
          exact hnot ⟨i, event, s, fp', hacts, hs, hhides, hfp, j, t, hji, ht, hlive⟩
        generalize hhides : s.hides n.core event = hidden at hshows hother
        cases hshows with
        | opens fp' hwas hnow htells =>
          by_cases hfp' : fp' = fp
          · exact ⟨_, by rw [htells fp, if_pos hfp', List.getLast?_concat]⟩
          · exact hold ((htells fp).trans (if_neg hfp')) ⟨j, t, ht, hlive⟩
        | closes fp' hwas hnow htells => exact hold ((htells fp).trans (if_neg (hother fp' rfl))) ⟨j, t, ht, hlive⟩
        | asks fp' hwas hnow htells => exact hold ((htells fp).trans (if_neg (hother fp' rfl))) ⟨j, t, ht, hlive⟩
        | quiet hsame htells => exact hold (htells fp) ⟨j, t, ht, hlive⟩

/-- In every run of the process, once the UI has handled its events: a row that says Connected is that of a session that
has entered its main loop and has not been torn down, and it names the side in control. -/
theorem connected_is_live (hcore : core.events = []) (hrun : run (step ar) (initial core) es = some n) {fp : String}
    {controlling : Bool} (hshown : n.window.stateOf fp = some (.connected controlling)) :
    ∃ i s, n.session? i = some s ∧ s.live = some fp ∧ s.role.controls = controlling := by
  have hinit : ConnectedIsLive (initial core) := by
    intro fp controlling hshown
    rw [stateOf_window] at hshown
    change (core.events.filterMap (tellsOf fp)).getLast? = _ at hshown
    rw [hcore] at hshown
    cases hshown
  exact run_invariant hinit (fun t e u ht hstep => step_connectedIsLive hstep ht) es n hrun fp controlling hshown

theorem connected_is_live_alice :
    ∃ n, run (step .exact) (initial (demoCore certBob "bob" [fpAlice])) (aliceControls 0 (Vector.replicate 32 1) 11) =
        some n ∧ n.window.stateOf fpAlice = some (.connected false) ∧
      ∃ i s, n.session? i = some s ∧ s.live = some fpAlice ∧ s.role.controls = false := by
  obtain ⟨n, hrun, hshown⟩ : ∃ n, run (step .exact) (initial (demoCore certBob "bob" [fpAlice]))
      (aliceControls 0 (Vector.replicate 32 1) 11) = some n ∧ n.window.stateOf fpAlice = some (.connected false) :=
    exists_run (by decide +kernel)
  exact ⟨n, hrun, hshown, connected_is_live rfl hrun hshown⟩

/-- In every run: each session in its main loop has the row of its fingerprint, in every state reached, if and only if no
session is torn down, or asks for a pairing, while another session with its fingerprint is live. -/
theorem live_is_connected_iff (hrun : run (step ar) (initial core) es = some n) :
    (∀ es₁ es₂ n₁, es = es₁ ++ es₂ → run (step ar) (initial core) es₁ = some n₁ → LiveIsConnected n₁) ↔
      ¬ Seen (step ar) HidesLive (initial core) es := by
  have hinit : LiveIsConnected (initial core) := by
    intro i s fp hs
    simp [session?, initial] at hs
  exact always_good_iff (A := fun _ => True) hinit trivial
    (fun t e u ht _ hstep => ⟨step_liveIsConnected hstep ht, fun _ => trivial⟩) hrun

/-- Alice connects again, and when its first connection is given up the row says Disconnected of a live session. -/
theorem live_is_connected_iff_reconnect :
    ∃ n, run (step .exact) (initial (demoCore certBob "bob" [fpAlice]))
        (reconnect ++ [.session 0 (.closed (.io "connection reset")), .session 0 .teardown]) = some n ∧
      n.window.stateOf fpAlice = some .disconnected ∧
      Seen (step .exact) HidesLive (initial (demoCore certBob "bob" [fpAlice]))
        (reconnect ++ [.session 0 (.closed (.io "connection reset")), .session 0 .teardown]) := by
  obtain ⟨n, hrun, hshown, hlive⟩ : ∃ n, run (step .exact) (initial (demoCore certBob "bob" [fpAlice]))
      (reconnect ++ [.session 0 (.closed (.io "connection reset")), .session 0 .teardown]) = some n ∧
      n.window.stateOf fpAlice = some .disconnected ∧ (n.session? 1).bind Session.live = some fpAlice :=
    exists_run (by decide +kernel)
  obtain ⟨s, hs, hslive⟩ := Option.bind_eq_some_iff.mp hlive
  refine ⟨n, hrun, hshown, not_not.mp fun hnot => ?_⟩
  obtain ⟨controlling, hconnected⟩ :=
    (live_is_connected_iff hrun).mpr hnot _ [] n (List.append_nil _).symm hrun 1 s fpAlice hs hslive (by decide)
  cases hshown.symm.trans hconnected

end Node

end ScreenLink
