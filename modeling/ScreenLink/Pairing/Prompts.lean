import ScreenLink.Pairing.Confirm
import ScreenLink.Session.Tells

/-!
# The prompt on the screen

The UI has one place for a prompt. `Prompting.step` is the process with a UI that handles every event at once. Each
prompt is followed by one result before its session ends, and the code on the screen is that of every session that
waits for the user and of no session that is gone, if and only if no session ends its pairing without a result, no
prompt comes while a session with another fingerprint waits, and no result comes while another session with its
fingerprint waits (`prompts_match_iff`). A peer that closes the connection leaves its prompt on the screen
(`closed_prompt_stays`).
-/

namespace ScreenLink

open AppCore Machine

/-- The prompt on the screen. -/
structure PairingPrompt where
  fingerprint : String
  name : String
  pin : String
  deriving DecidableEq

structure PeerRow where
  name : String
  state : ConnState
  deriving DecidableEq

/-- What the window shows, without its log and the measured times. -/
structure ScreenLinkApp where
  /-- The rows by fingerprint. -/
  peers : List (String × PeerRow)
  pairing : Option PairingPrompt
  controlOnRemote : Bool
  deriving DecidableEq

namespace ScreenLinkApp

def new : ScreenLinkApp := ⟨[], none, false⟩

/-- Set the row of the fingerprint, or enter it. -/
def setPeer (peers : List (String × PeerRow)) (fingerprint : String) (row : PeerRow) : List (String × PeerRow) :=
  if peers.any fun entry => entry.1 == fingerprint then
    peers.map fun entry => if entry.1 == fingerprint then (fingerprint, row) else entry
  else peers ++ [(fingerprint, row)]

/-- The body of the loop of `drain_events`. -/
def handle (app : ScreenLinkApp) (event : NetEvent) : ScreenLinkApp :=
  match event with
  | .peerState fingerprint name state => { app with peers := setPeer app.peers fingerprint ⟨name, state⟩ }
  | .pairingPrompt fingerprint name pin => { app with pairing := some ⟨fingerprint, name, pin⟩ }
  | .pairingResult fingerprint _ =>
    if app.pairing.map PairingPrompt.fingerprint = some fingerprint then { app with pairing := none } else app
  | .controlOnRemote on => { app with controlOnRemote := on }
  | .status _ | .rtt _ => app

def drainEvents (app : ScreenLinkApp) (events : List NetEvent) : ScreenLinkApp := events.foldl handle app

theorem pairing_drain (app app' : ScreenLinkApp) (events : List NetEvent) (h : app.pairing = app'.pairing) :
    (app.drainEvents events).pairing = (app'.drainEvents (events.filter NetEvent.ofPairing)).pairing := by
  unfold drainEvents
  induction events generalizing app app' with
  | nil => exact h
  | cons event events ih =>
    cases event with
    | pairingPrompt fingerprint name pin => exact ih _ _ rfl
    | pairingResult fingerprint ok =>
      refine ih _ _ ?_
      unfold handle
      dsimp only
      rw [h]
      split_ifs
      · rfl
      · exact h
    | _ => exact ih _ _ h

end ScreenLinkApp

/-- The process with its UI. -/
structure Prompting (x : Crates) where
  node : Node x
  ui : ScreenLinkApp
  /-- History: the events of its pairing that each session has sent to the UI. -/
  said : ℕ → List NetEvent

namespace Prompting

variable {x : Crates}

def initial (core : AppCore x) : Prompting x := ⟨.initial core, .new, fun _ => []⟩

/-- One step, after which the UI handles the new events. -/
def step (ar : Arith) (t : Prompting x) (e : NodeEvent) : Option (Prompting x) :=
  (t.node.step ar e).map fun node =>
    let news := node.core.events.drop t.node.core.events.length
    { node := node
      ui := t.ui.drainEvents news
      said := match t.node.acts e with
        | some (i, _) => Function.update t.said i (t.said i ++ news.filter NetEvent.ofPairing)
        | none => t.said }

/-- The fingerprint of the code on the screen. -/
def shown (t : Prompting x) : Option String := t.ui.pairing.map PairingPrompt.fingerprint

/-- No prompt, or one and its result. -/
def Answered (said : List NetEvent) : Prop :=
  said = [] ∨ ∃ fp name pin ok, said = [.pairingPrompt fp name pin, .pairingResult fp ok]

/-- The prompts match the sessions. -/
structure Matches (t : Prompting x) : Prop where
  /-- A session that has ended has closed its prompt once. -/
  answered : ∀ i s, t.node.session? i = some s → s.phase.finished = true → Answered (t.said i)
  /-- The user sees what each session that waits for an answer asks. -/
  visible : ∀ i s fp, t.node.session? i = some s → s.waits = some fp → t.shown = some fp
  /-- What the user sees is asked by a session. -/
  alive : ∀ fp, t.shown = some fp → ∃ i s, t.node.session? i = some s ∧ s.asks = some fp

/-- Another session than `i` waits for an answer on a fingerprint with the property. -/
def OtherWaits (n : Node x) (i : ℕ) (P : String → Prop) : Prop :=
  ∃ j s fp, j ≠ i ∧ n.session? j = some s ∧ s.waits = some fp ∧ P fp

/-- A session ends its pairing without a result, or puts up its prompt while a session with another fingerprint waits,
or closes its prompt while another session with its fingerprint waits. -/
def Mismatches (t : Prompting x) (e : NodeEvent) : Prop :=
  ∃ i event s, t.node.acts e = some (i, event) ∧ t.node.session? i = some s ∧
    (s.abandons event = true ∨
      (∃ fp, s.prompts t.node.core event = some fp ∧ OtherWaits t.node i fun fp' => fp' ≠ fp) ∨
      ∃ fp ok, s.concludes event = some (fp, ok) ∧ OtherWaits t.node i fun fp' => fp' = fp)

/-! ### One step -/

variable {ar : Arith} {t u : Prompting x} {n n' : Node x} {e : NodeEvent} {i : ℕ} {event : SessionEvent} {s : Session}
  {p : AppCore x × Session}

theorem tells_report (core : AppCore x) (name : String) (s : Session) : Tells [] core (Node.report core name s) := by
  unfold Node.report
  split
  · exact tells_emit rfl
  · exact tells_same rfl

theorem tells_of_acts (h : n.step ar e = some n') (hacts : n.acts e = some (i, event)) :
    ∃ s p, n.session? i = some s ∧ s.step ar n.core event = some p ∧
      (∀ j, n'.session? j = if j = i then some p.2 else n.session? j) ∧
      ∀ evs, Tells evs n.core p.1 → Tells evs n.core n'.core := by
  have hafter : ∀ (s : Session) (name : String) (queue : List Queued) (event : SessionEvent) (p : AppCore x × Session)
      (evs : List NetEvent), Tells evs n.core p.1 → Tells evs n.core (n.afterStep i name s queue event p).core := by
    intro s name queue event p evs htells
    unfold Node.afterStep
    dsimp only
    split_ifs
    · exact htells
    · simpa using htells.trans (tells_report p.1 name p.2)
  cases Node.steps_of_step h with
  | command j epoch s name q queue p hh hstep =>
    simp only [Node.acts, hh, Option.some.injEq, Prod.mk.injEq] at hacts
    obtain ⟨rfl, rfl⟩ := hacts
    have hlt := (List.getElem?_eq_some_iff.mp hh).1
    exact ⟨s, p, Node.session?_of_handle hh, hstep, fun k => Node.session?_afterStep hlt, hafter s name queue _ p⟩
  | session j event' s name queue p hh hevent hstep =>
    simp only [Node.acts, Option.some.injEq, Prod.mk.injEq] at hacts
    obtain ⟨rfl, rfl⟩ := hacts
    have hlt := (List.getElem?_eq_some_iff.mp hh).1
    exact ⟨s, p, Node.session?_of_handle hh, hstep, fun k => Node.session?_afterStep hlt, hafter s name queue _ p⟩
  | _ => cases hacts

theorem tells_of_idle (h : n.step ar e = some n') (hacts : n.acts e = none) : Tells [] n.core n'.core := by
  cases Node.steps_of_step h with
  | connectFailed i error ip edge name queue hh => exact tells_emit rfl
  | receive c rest hd hc =>
    obtain ⟨cmd, answers⟩ := c
    cases cmd with
    | connect ip name edge => exact tells_emit rfl
    | _ => exact tells_same rfl
  | visit fingerprint cmd next targets hd =>
    unfold Node.visit
    split <;> exact tells_same rfl
  | send cmd targets n' hd hsend =>
    unfold Node.sendTo at hsend
    split at hsend
    case h_1 => exact Option.some.inj hsend ▸ tells_same rfl
    case h_2 i rest =>
      split at hsend
      case h_1 => cases hsend
      case h_2 t hh =>
        split_ifs at hsend
        · exact Option.some.inj hsend ▸ tells_same rfl
        · exact Option.some.inj hsend ▸ tells_same rfl
  | datagram packet =>
    refine tells_same ?_
    show (Node.datagram n.core packet).events = n.core.events
    unfold Node.datagram
    split
    · rfl
    · dsimp only
      split
      · rfl
      · split <;> rfl
  | command i epoch s name q queue p hh hstep => simp [Node.acts, hh] at hacts
  | session i event s name queue p hh hevent hstep => cases hacts
  | _ => exact tells_same rfl

theorem step_cases (h : step ar t e = some u) :
    (t.node.acts e = none ∧ u.said = t.said ∧ u.shown = t.shown ∧ ∀ j, u.node.session? j = t.node.session? j ∨
        (t.node.session? j = none ∧ ∃ role ip key cert, u.node.session? j = some (.new role ip key cert))) ∨
      ∃ i event s p, t.node.acts e = some (i, event) ∧ t.node.session? i = some s ∧
        s.step ar t.node.core event = some p ∧
        (∀ j, u.node.session? j = if j = i then some p.2 else t.node.session? j) ∧
        ∀ evs, Tells evs t.node.core p.1 → u.said = Function.update t.said i (t.said i ++ evs) ∧
          u.ui.pairing = (t.ui.drainEvents evs).pairing := by
  obtain ⟨node, hnode, rfl⟩ := Option.map_eq_some_iff.mp h
  cases hacts : t.node.acts e with
  | none =>
    obtain ⟨news, hnews, hquiet⟩ := tells_of_idle hnode hacts
    refine Or.inl ⟨rfl, rfl, ?_, Node.session?_of_idle hnode hacts⟩
    have hpairing := ScreenLinkApp.pairing_drain t.ui t.ui news rfl
    rw [hquiet] at hpairing
    simp only [shown, hnews, List.drop_left, hpairing]
    rfl
  | some act =>
    obtain ⟨i, event⟩ := act
    obtain ⟨s, p, hs, hp, hsessions, htells⟩ := tells_of_acts hnode hacts
    refine Or.inr ⟨i, event, s, p, rfl, hs, hp, hsessions, fun evs hevs => ?_⟩
    obtain ⟨news, hnews, rfl⟩ := htells evs hevs
    simp only [hnews, List.drop_left, true_and]
    exact ScreenLinkApp.pairing_drain t.ui t.ui news rfl

/-! ### What is known throughout a run -/

/-- What a session has said follows from where it is, unless it has ended. -/
structure Known (s : Session) (said : List NetEvent) : Prop where
  early : s.phase.early = true → said = []
  asked : ∀ fp, s.asks = some fp → ∃ name pin, said = [.pairingPrompt fp name pin]
  settled : s.asks = none → s.phase.finished = false → Answered said

structure Inv (t : Prompting x) : Prop where
  absent : ∀ i, t.node.session? i = none → t.said i = []
  known : ∀ i s, t.node.session? i = some s → Known s (t.said i)

theorem asks_of_early (h : s.phase.early = true) : s.asks = none := by
  unfold Session.asks
  cases hs : s.phase <;> simp [hs, Phase.early] at h ⊢

theorem asks_of_finished (h : s.phase.finished = true) : s.asks = none ∧ s.phase.early = false := by
  unfold Session.asks
  cases hs : s.phase <;> simp [hs, Phase.early, Phase.finished] at h ⊢

variable {core : AppCore x} {said : List NetEvent}

theorem known_prompts {info : DeviceInfo} {name pin : String} (hknown : Known s said) (hs : s.phase = .gate info)
    (hnext : p.2.phase = .pairing info {}) : Known p.2 (said ++ [.pairingPrompt info.id.id name pin]) where
  early hearly := by
    rw [hnext] at hearly
    cases hearly
  asked fp hasks := by
    have hnone : said = [] := hknown.early (by rw [hs]; rfl)
    simp only [Session.asks, hnext] at hasks
    cases hasks
    exact ⟨name, pin, by rw [hnone]; rfl⟩
  settled hasks := by simp [Session.asks, hnext] at hasks

theorem answered_concludes {fp : String} {ok : Bool} (hknown : Known s said) (hasks : s.asks = some fp) :
    Answered (said ++ [.pairingResult fp ok]) := by
  obtain ⟨name, pin, rfl⟩ := hknown.asked fp hasks
  exact Or.inr ⟨fp, name, pin, ok, rfl⟩

theorem known_concludes {fp : String} {ok : Bool} (hknown : Known s said) (hp : s.step ar core event = some p)
    (hasks : s.asks = some fp) (hnone : p.2.asks = none) : Known p.2 (said ++ [.pairingResult fp ok]) where
  early hearly := by
    have hnone' := asks_of_early (Phase.early_of_moves (Session.step_moves hp) hearly).1
    cases hasks.symm.trans hnone'
  asked fp' hasks' := by cases hnone.symm.trans hasks'
  settled _ _ := answered_concludes hknown hasks

theorem known_abandons (hend : p.2.phase.finished = true) : Known p.2 said where
  early hearly := by cases (asks_of_finished hend).2.symm.trans hearly
  asked fp hasks := by cases (asks_of_finished hend).1.symm.trans hasks
  settled _ hopen := by cases hend.symm.trans hopen

theorem known_quiet (hknown : Known s said) (hp : s.step ar core event = some p) (hasks : p.2.asks = s.asks) :
    Known p.2 said where
  early hearly := hknown.early (Phase.early_of_moves (Session.step_moves hp) hearly).1
  asked fp hfp := hknown.asked fp (hasks ▸ hfp)
  settled hnone hopen := by
    exact hknown.settled (hasks ▸ hnone) (Phase.unfinished_of_moves (Session.step_moves hp) hopen)

theorem inv_of_session (hinv : Inv t) {s' : Session}
    (hsessions : ∀ j, u.node.session? j = if j = i then some s' else t.node.session? j)
    (hsaid : u.said = Function.update t.said i said) (hknown : Known s' said) : Inv u where
  absent j hj := by
    rw [hsessions] at hj
    split_ifs at hj with hji
    rw [hsaid, Function.update_of_ne hji]
    exact hinv.absent j hj
  known j r hr := by
    rw [hsessions] at hr
    split_ifs at hr with hji
    · subst hji
      cases hr
      rwa [hsaid, Function.update_self]
    · rw [hsaid, Function.update_of_ne hji]
      exact hinv.known j r hr

theorem step_inv (hinv : Inv t) (hstep : step ar t e = some u) : Inv u := by
  rcases step_cases hstep with ⟨-, hsaid, -, hsessions⟩ | ⟨i, event, s, p, -, hs, hp, hsessions, htold⟩
  · refine ⟨fun i hi => ?_, fun i s hs => ?_⟩
    · rw [hsaid]
      rcases hsessions i with heq | ⟨hnone, -⟩
      · exact hinv.absent i (heq ▸ hi)
      · exact hinv.absent i hnone
    · rw [hsaid]
      rcases hsessions i with heq | ⟨hnone, role, ip, key, cert, hnew⟩
      · exact hinv.known i s (heq ▸ hs)
      · cases hnew.symm.trans hs
        exact ⟨fun _ => hinv.absent i hnone, nofun, fun _ _ => Or.inl (hinv.absent i hnone)⟩
  · have hknown := hinv.known i s hs
    cases Session.turn_of_step hp with
    | prompts info hgate hprompts htells hnext =>
      exact inv_of_session hinv hsessions (htold _ htells).1 (known_prompts hknown hgate hnext)
    | concludes fp ok hconcludes hasks htells hnone =>
      exact inv_of_session hinv hsessions (htold _ htells).1 (known_concludes hknown hp hasks hnone)
    | abandons fp habandons hasks htells hend =>
      exact inv_of_session hinv hsessions (htold _ htells).1 (known_abandons hend)
    | quiet hprompts hconcludes habandons htells hasks hwaits =>
      refine inv_of_session hinv hsessions (htold _ htells).1 ?_
      rw [List.append_nil]
      exact known_quiet hknown hp hasks

theorem mismatches_iff (hacts : t.node.acts e = some (i, event)) (hs : t.node.session? i = some s) :
    t.Mismatches e ↔ s.abandons event = true ∨
      (∃ fp, s.prompts t.node.core event = some fp ∧ OtherWaits t.node i fun fp' => fp' ≠ fp) ∨
      ∃ fp ok, s.concludes event = some (fp, ok) ∧ OtherWaits t.node i fun fp' => fp' = fp := by
  constructor
  · rintro ⟨j, event', s', hacts', hs', hbad⟩
    cases hacts.symm.trans hacts'
    cases hs.symm.trans hs'
    exact hbad
  · exact fun hbad => ⟨i, event, s, hacts, hs, hbad⟩

theorem matches_of_session (hmatches : t.Matches) {s' : Session}
    (hsessions : ∀ j, u.node.session? j = if j = i then some s' else t.node.session? j)
    (hsaid : u.said = Function.update t.said i said) (hanswered : s'.phase.finished = true → Answered said)
    (hvisible : ∀ fp, s'.waits = some fp → u.shown = some fp)
    (hothers : ∀ j s fp, j ≠ i → t.node.session? j = some s → s.waits = some fp → u.shown = some fp)
    (halive : ∀ fp, u.shown = some fp → s'.asks = some fp ∨
      ∃ j s, j ≠ i ∧ t.node.session? j = some s ∧ s.asks = some fp) : u.Matches where
  answered j r hr hended := by
    rw [hsessions] at hr
    split_ifs at hr with hji
    · subst hji
      cases hr
      rw [hsaid, Function.update_self]
      exact hanswered hended
    · rw [hsaid, Function.update_of_ne hji]
      exact hmatches.answered j r hr hended
  visible j r fp hr hwaits := by
    rw [hsessions] at hr
    split_ifs at hr with hji
    · cases hr
      exact hvisible fp hwaits
    · exact hothers j r fp hji hr hwaits
  alive fp hfp := by
    rcases halive fp hfp with hasks | ⟨j, r, hji, hr, hasks⟩
    · exact ⟨i, s', by rw [hsessions, if_pos rfl], hasks⟩
    · exact ⟨j, r, by rw [hsessions, if_neg hji, hr], hasks⟩

theorem matches_prompts (hmatches : t.Matches) {s' : Session} {info : DeviceInfo}
    (hsessions : ∀ j, u.node.session? j = if j = i then some s' else t.node.session? j)
    (hsaid : u.said = Function.update t.said i said) (hshown : u.shown = some info.id.id)
    (hnext : s'.phase = .pairing info {}) : u.Matches ↔ ¬ OtherWaits t.node i fun fp => fp ≠ info.id.id := by
  constructor
  · rintro hu ⟨j, r, fp, hji, hr, hwaits, hne⟩
    have hfp := hu.visible j r fp (by rw [hsessions, if_neg hji, hr]) hwaits
    cases hshown.symm.trans hfp
    exact hne rfl
  · intro hnone
    refine matches_of_session hmatches hsessions hsaid (fun hended => ?_) (fun fp hwaits => ?_)
      (fun j r fp hji hr hwaits => ?_) fun fp hfp => Or.inl ?_
    · rw [hnext] at hended
      cases hended
    · simp only [Session.waits, hnext] at hwaits
      exact hshown.trans hwaits
    · by_contra hne
      refine hnone ⟨j, r, fp, hji, hr, hwaits, ?_⟩
      rintro rfl
      exact hne hshown
    · simp only [Session.asks, hnext]
      exact hshown.symm.trans hfp

theorem matches_concludes (hmatches : t.Matches) (hs : t.node.session? i = some s) {s' : Session}
    {fp : String} (hsessions : ∀ j, u.node.session? j = if j = i then some s' else t.node.session? j)
    (hsaid : u.said = Function.update t.said i said) (hanswered : Answered said)
    (hshown : u.shown = if t.shown = some fp then none else t.shown) (hasks : s.asks = some fp)
    (hnone : s'.asks = none) : u.Matches ↔ ¬ OtherWaits t.node i fun fp' => fp' = fp := by
  constructor
  · rintro hu ⟨j, r, fp', hji, hr, hwaits, rfl⟩
    have hfp := hu.visible j r fp' (by rw [hsessions, if_neg hji, hr]) hwaits
    rw [hshown, if_pos (hmatches.visible j r fp' hr hwaits)] at hfp
    cases hfp
  · intro hothers
    refine matches_of_session hmatches hsessions hsaid (fun _ => hanswered) (fun fp' hwaits => ?_)
      (fun j r fp' hji hr hwaits => ?_) fun fp' hfp => Or.inr ?_
    · rw [Session.waits_eq_none hnone] at hwaits
      cases hwaits
    · have hvisible := hmatches.visible j r fp' hr hwaits
      rw [hshown, if_neg, hvisible]
      intro hsame
      cases hsame.symm.trans hvisible
      exact hothers ⟨j, r, fp, hji, hr, hwaits, rfl⟩
    · rw [hshown] at hfp
      split_ifs at hfp with hsame
      obtain ⟨j, r, hr, hrasks⟩ := hmatches.alive fp' hfp
      refine ⟨j, r, ?_, hr, hrasks⟩
      rintro rfl
      cases hs.symm.trans hr
      cases hasks.symm.trans hrasks
      exact hsame hfp

theorem shown_result (t : Prompting x) (fp : String) (ok : Bool) :
    (t.ui.drainEvents [.pairingResult fp ok]).pairing.map PairingPrompt.fingerprint =
      if t.shown = some fp then none else t.shown := by
  show (t.ui.handle (.pairingResult fp ok)).pairing.map PairingPrompt.fingerprint = _
  unfold ScreenLinkApp.handle shown
  dsimp only
  split_ifs <;> rfl

theorem not_matches_abandons {s' : Session} {fp name pin : String}
    (hsessions : ∀ j, u.node.session? j = if j = i then some s' else t.node.session? j)
    (hsaid : u.said = Function.update t.said i [.pairingPrompt fp name pin]) (hend : s'.phase.finished = true) :
    ¬ u.Matches := by
  intro hu
  have hanswered := hu.answered i s' (by rw [hsessions, if_pos rfl]) hend
  rw [hsaid, Function.update_self] at hanswered
  rcases hanswered with hnil | ⟨fp', name', pin', ok, htwo⟩
  · cases hnil
  · cases htwo

theorem matches_step (hinv : Inv t) (hmatches : t.Matches) (hstep : step ar t e = some u) :
    u.Matches ↔ ¬ t.Mismatches e := by
  rcases step_cases hstep with ⟨hacts, hsaid, hshown, hsessions⟩ | ⟨i, event, s, p, hacts, hs, hp, hsessions, htold⟩
  · refine iff_of_true ⟨fun i s hs hended => ?_, fun i s fp hs hwaits => ?_, fun fp hfp => ?_⟩ ?_
    · rw [hsaid]
      rcases hsessions i with heq | ⟨-, role, ip, key, cert, hnew⟩
      · exact hmatches.answered i s (heq ▸ hs) hended
      · cases hnew.symm.trans hs
        cases hended
    · rw [hshown]
      rcases hsessions i with heq | ⟨-, role, ip, key, cert, hnew⟩
      · exact hmatches.visible i s fp (heq ▸ hs) hwaits
      · cases hnew.symm.trans hs
        cases hwaits
    · obtain ⟨i, s, hs, hasks⟩ := hmatches.alive fp (hshown ▸ hfp)
      rcases hsessions i with heq | ⟨hnone, -⟩
      · exact ⟨i, s, heq ▸ hs, hasks⟩
      · cases hnone.symm.trans hs
    · rintro ⟨i, event, s, hacts', -⟩
      cases hacts.symm.trans hacts'
  · have hknown := hinv.known i s hs
    rw [mismatches_iff hacts hs]
    cases Session.turn_of_step hp with
    | prompts info hgate hprompts htells hnext =>
      obtain ⟨hsaid, hpairing⟩ := htold _ htells
      have hshown : u.shown = some info.id.id := by
        rw [shown, hpairing]
        rfl
      rw [matches_prompts hmatches hsessions hsaid hshown hnext, not_iff_not, hprompts]
      have hquiet : s.concludes event = none ∧ s.abandons event = false :=
        Session.asks_eq_none (by simp [Session.asks, hgate])
      simp [hquiet.1, hquiet.2]
    | concludes fp ok hconcludes hasks htells hnone =>
      obtain ⟨hsaid, hpairing⟩ := htold _ htells
      have hshown : u.shown = if t.shown = some fp then none else t.shown := by
        rw [shown, hpairing]
        exact shown_result t fp ok
      rw [matches_concludes hmatches hs hsessions hsaid (answered_concludes hknown hasks) hshown hasks hnone,
        not_iff_not, hconcludes]
      have hexcl : s.prompts t.node.core event = none ∧ s.abandons event = false :=
        Session.concludes_eq_some hconcludes
      simp [hexcl.1, hexcl.2]
    | abandons fp habandons hasks htells hend =>
      obtain ⟨hsaid, -⟩ := htold _ htells
      obtain ⟨name, pin, hprompt⟩ := hknown.asked fp hasks
      rw [hprompt] at hsaid
      exact iff_of_false (not_matches_abandons hsessions hsaid hend) (not_not.mpr (Or.inl habandons))
    | quiet hprompts hconcludes habandons htells hasks hwaits =>
      obtain ⟨hsaid, hpairing⟩ := htold _ htells
      have hshown : u.shown = t.shown := by
        rw [shown, hpairing]
        rfl
      refine iff_of_true ?_ (by simp [hprompts, hconcludes, habandons])
      refine matches_of_session hmatches hsessions hsaid (fun hended => ?_) (fun fp hfp => ?_)
        (fun j r fp _ hr hfp => ?_) fun fp hfp => ?_
      · rw [List.append_nil]
        have hnone : s.asks = none := hasks ▸ (asks_of_finished hended).1
        cases hwas : s.phase.finished with
        | true => exact hmatches.answered i s hs hwas
        | false => exact hknown.settled hnone hwas
      · exact hshown.trans (hmatches.visible i s fp hs (hwaits fp hfp))
      · exact hshown.trans (hmatches.visible j r fp hr hfp)
      · obtain ⟨j, r, hr, hrasks⟩ := hmatches.alive fp (hshown ▸ hfp)
        by_cases hji : j = i
        · subst hji
          cases hs.symm.trans hr
          exact Or.inl (hasks.trans hrasks)
        · exact Or.inr ⟨j, r, hji, hr, hrasks⟩

theorem otherWaits_iff {P : String → Prop} : OtherWaits n i P ↔
    ∃ j ∈ List.range n.handles.length, j ≠ i ∧ ∃ fp ∈ (n.session? j).bind Session.waits, P fp := by
  constructor
  · rintro ⟨j, s, fp, hji, hs, hwaits, hfp⟩
    obtain ⟨h, hh, -⟩ := Node.session?_eq_some.mp hs
    exact ⟨j, List.mem_range.mpr (List.getElem?_eq_some_iff.mp hh).1, hji, fp, by simp [hs, hwaits], hfp⟩
  · rintro ⟨j, -, hji, fp, hmem, hfp⟩
    obtain ⟨s, hs, hwaits⟩ := Option.bind_eq_some_iff.mp hmem
    exact ⟨j, s, fp, hji, hs, hwaits, hfp⟩

instance (n : Node x) (i : ℕ) (P : String → Prop) [DecidablePred P] : Decidable (OtherWaits n i P) :=
  decidable_of_iff _ otherWaits_iff.symm

instance (t : Prompting x) (e : NodeEvent) : Decidable (t.Mismatches e) :=
  match hacts : t.node.acts e with
  | none => isFalse fun ⟨_, _, _, hacts', _⟩ => by cases hacts.symm.trans hacts'
  | some (i, event) => match hs : t.node.session? i with
    | none => isFalse fun ⟨_, _, _, hacts', hs', _⟩ => by
      cases hacts.symm.trans hacts'
      cases hs.symm.trans hs'
    | some s => decidable_of_iff (s.abandons event = true ∨
        (∃ fp ∈ s.prompts t.node.core event, OtherWaits t.node i fun fp' => fp' ≠ fp) ∨
        ∃ q ∈ s.concludes event, OtherWaits t.node i fun fp' => fp' = q.1)
      ((mismatches_iff hacts hs).trans (by simp)).symm

theorem initial_session? (core : AppCore x) (i : ℕ) : (initial core).node.session? i = none := by
  simp [initial, Node.session?, Node.initial]

theorem initial_matches (core : AppCore x) : (initial core).Matches where
  answered i s hs := by cases (initial_session? core i).symm.trans hs
  visible i s fp hs := by cases (initial_session? core i).symm.trans hs
  alive fp hfp := by cases hfp

theorem initial_inv (core : AppCore x) : Inv (initial core) where
  absent _ _ := rfl
  known i s hs := by cases (initial_session? core i).symm.trans hs

end Prompting

open Prompting in
/-- For every interleaving of the sessions, the peers and the user: in every state the prompts match the sessions, iff
no step of the run lets them mismatch. -/
theorem prompts_match_iff {x : Crates} {ar : Arith} (core : AppCore x) (es : List NodeEvent) (t : Prompting x)
    (hrun : run (step ar) (initial core) es = some t) :
    (∀ front back u, es = front ++ back → run (step ar) (initial core) front = some u → u.Matches) ↔
      ¬ Seen (step ar) Mismatches (initial core) es :=
  always_good_iff (A := Inv) (initial_matches core) (initial_inv core)
    (fun _ _ _ hmatches hinv hstep => ⟨matches_step hinv hmatches hstep, fun _ => step_inv hinv hstep⟩) hrun

namespace Prompting

/-- Bob is confirmed by both users, and stored; then Mallory comes to the pairing loop, and Alice's user cancels. -/
def bobPairs : List NodeEvent :=
  Node.comesToPairing 0 certBob Node.bobInfo ++
    [.confirm 0, .receive, .visit, .visit, .send, .send, .command 0 0, .session 0 (.recv .pairConfirm),
      .session 0 (.store none)] ++
    Node.comesToPairing 1 certMallory Node.malloryInfo ++
    [.ui (.cancelPairing fpMallory), .receive, .visit, .visit, .visit, .send, .send, .command 1 0]

theorem prompts_match_iff_bobPairs :
    ∃ t, run (step (x := demoCrates) .exact) (initial (demoCore certAlice "alice" [])) bobPairs = some t ∧
      t.shown = none ∧ (t.said 0).length = 2 ∧ (t.said 1).length = 2 ∧
      ∀ front back u, bobPairs = front ++ back →
        run (step .exact) (initial (demoCore certAlice "alice" [])) front = some u → u.Matches := by
  obtain ⟨t, hrun, hshown, hbob, hmallory⟩ : ∃ t, run (step (x := demoCrates) .exact)
      (initial (demoCore certAlice "alice" [])) bobPairs = some t ∧
        t.shown = none ∧ (t.said 0).length = 2 ∧ (t.said 1).length = 2 := exists_run (by decide +kernel)
  exact ⟨t, hrun, hshown, hbob, hmallory, (prompts_match_iff _ bobPairs t hrun).mpr (by decide +kernel)⟩

/-- Bob closes the connection while its prompt is on Alice's screen. -/
def bobLeaves : List NodeEvent := Node.comesToPairing 0 certBob Node.bobInfo ++ [.session 0 (.closed (.io "early eof"))]

/-- The prompt stays. -/
theorem closed_prompt_stays :
    ∃ t, run (step (x := demoCrates) .exact) (initial (demoCore certAlice "alice" [])) bobLeaves = some t ∧
      t.shown = some fpBob ∧ ¬ t.Matches := by
  obtain ⟨t, hrun, hshown, hgone⟩ : ∃ t, run (step (x := demoCrates) .exact)
      (initial (demoCore certAlice "alice" [])) bobLeaves = some t ∧ t.shown = some fpBob ∧
        ∀ i ∈ List.range t.node.handles.length, (t.node.session? i).bind Session.asks ≠ some fpBob :=
    exists_run (by decide +kernel)
  refine ⟨t, hrun, hshown, fun hmatches => ?_⟩
  obtain ⟨i, s, hs, hasks⟩ := hmatches.alive fpBob hshown
  obtain ⟨h, hh, -⟩ := Node.session?_eq_some.mp hs
  refine hgone i (List.mem_range.mpr (List.getElem?_eq_some_iff.mp hh).1) ?_
  rw [hs, Option.bind_some, hasks]

end Prompting

end ScreenLink
