import ScreenLink.Pairing.Gate
import ScreenLink.Session.Listener

/-!
# What the peers can do to the device

The process acts on its device in three ways: it puts the cursor where an `EdgeEnter` says, injects the events of realtime
packets, and hands clipboard texts to the clipboard thread. `Audited` runs the process and records for each of these
effects what caused it. In every run each effect is a session's whose gate has accepted, or that has completed a pairing,
and an injected event is one that was sealed under the key of the session that opened the channel and the epoch it named,
and no number is injected twice in one opening (`effects_accounted`).
-/

namespace ScreenLink

/-- An effect on the device, and its cause. -/
inductive Effect
  /-- Session `i` has handled an `EdgeEnter`. -/
  | entered (i : ℕ) (px py : F32)
  /-- Session `i` has been sent a clipboard text. -/
  | pasted (i : ℕ) (text : String)
  /-- A packet with this number was opened on the channel that session `i` had opened, as the `opening`-th channel of the
  process, with this epoch. -/
  | injected (i opening : ℕ) (epoch seq : BitVec 64) (event : InputEvent)
  deriving DecidableEq

namespace Effect

def session : Effect → ℕ
  | .entered i _ _ | .pasted i _ | .injected i _ _ _ _ => i

/-- The call of the injector. -/
def call? : Effect → Option InjectorCall
  | .entered _ px py => some (.setCursorNorm px py)
  | .injected _ _ _ _ event => some (.inject event)
  | .pasted _ _ => none

/-- The text handed to the clipboard thread. -/
def text? : Effect → Option String
  | .pasted _ text => some text
  | _ => none

/-- The number of an injected packet, with its channel. -/
def number? : Effect → Option (ℕ × BitVec 64)
  | .injected _ opening _ seq _ => some (opening, seq)
  | _ => none

end Effect

namespace Session

variable {x : Crates} {ar : Arith} {core : AppCore x} {s : Session} {event : SessionEvent} {p : AppCore x × Session}

/-- The text that the event hands to the clipboard thread. -/
def pastes (s : Session) (event : SessionEvent) : Option String :=
  match event, s.phase with
  | .recv (.clipboard (.text text)), .running _ => some text
  | _, _ => none

theorem applied_mirrorInbound (core : AppCore x) (s : Session) (info : DeviceInfo) (msg : ControlMsg) :
    (mirrorInbound core s info msg).1.applied = core.applied := by
  cases msg <;> rfl

theorem applied_handleInbound (core : AppCore x) (s : Session) (info : DeviceInfo) (msg : ControlMsg)
    (hs : s.phase = .running info) :
    (handleInbound core s info msg).1.applied = core.applied ++ (s.pastes (.recv msg)).toList := by
  cases msg with
  | clipboard data =>
    cases data
    simp [handleInbound, pastes, hs]
  | edgeEnter px py =>
    simp only [handleInbound, pastes]
    cases s.role <;> exact (List.append_nil _).symm
  | realtimeOpen port epoch =>
    simp only [handleInbound, pastes]
    cases s.role <;> exact (List.append_nil _).symm
  | setMode mode =>
    simp only [handleInbound, pastes]
    cases s.role <;> exact (List.append_nil _).symm
  | pong nonce =>
    simp only [handleInbound, pastes]
    split_ifs <;> exact (List.append_nil _).symm
  | _ => exact (List.append_nil _).symm

theorem applied_runningRecv (core : AppCore x) (s : Session) (info : DeviceInfo) (msg : ControlMsg)
    (hs : s.phase = .running info) :
    (runningRecv core s info msg).1.applied = core.applied ++ (s.pastes (.recv msg)).toList := by
  have hphase := (phase_mirrorInbound core s info msg).trans hs
  have hpastes : (mirrorInbound core s info msg).2.pastes (.recv msg) = s.pastes (.recv msg) := by
    simp only [pastes, hphase, hs]
  have h := applied_handleInbound (mirrorInbound core s info msg).1 (mirrorInbound core s info msg).2 info msg hphase
  rwa [hpastes, applied_mirrorInbound] at h

theorem step_applied (h : s.step ar core event = some p) :
    p.1.applied = core.applied ++ (s.pastes event).toList := by
  cases steps_of_step h with
  | runningRecv info msg hs => exact applied_runningRecv core s info msg hs
  | recvHello msg hs =>
    have hnone : s.pastes (.recv msg) = none := by simp [pastes, hs]
    rw [hnone]
    exact (List.append_nil _).symm
  | pairingRecv info st msg hs =>
    have hnone : s.pastes (.recv msg) = none := by simp [pastes, hs]
    rw [hnone]
    cases msg <;> exact (List.append_nil _).symm
  | checkTrust info hs =>
    unfold checkTrust
    split_ifs <;> exact (List.append_nil _).symm
  | pairingCmd info st cmd epoch hs => cases cmd <;> exact (List.append_nil _).symm
  | store info err hs => cases err <;> exact (List.append_nil _).symm
  | wire info epoch desktop err hs =>
    unfold wire
    dsimp only
    split
    · exact (List.append_nil _).symm
    · split <;> exact (List.append_nil _).symm
  | runningCmd info cmd epoch hs =>
    cases cmd with
    | startMirror =>
      unfold runningCmd
      cases s.mirrorTx with
      | some i => exact (List.append_nil _).symm
      | none => cases s.writer <;> exact (List.append_nil _).symm
    | stopMirror =>
      unfold runningCmd
      cases s.mirrorTx <;> exact (List.append_nil _).symm
    | _ => exact (List.append_nil _).symm
  | host t edge captured edgeNow hhost hlive =>
    obtain ⟨events, out, heq⟩ := hostStep_eq ar core s t edge captured edgeNow
    rw [heq]
    exact (List.append_nil _).symm
  | _ => exact (List.append_nil _).symm

theorem enters_eq_some {call : InjectorCall} (h : s.enters event = some call) :
    (∃ info, s.phase = .running info) ∧ s.role = .controlled ∧
      ∃ px py, event = .recv (.edgeEnter px py) ∧ call = .setCursorNorm px py := by
  unfold enters at h
  split at h
  case h_1 px py info hs hrole =>
    cases h
    exact ⟨⟨info, hs⟩, hrole, px, py, rfl, rfl⟩
  case h_2 => cases h

theorem pastes_eq_some {text : String} (h : s.pastes event = some text) :
    (∃ info, s.phase = .running info) ∧ event = .recv (.clipboard (.text text)) := by
  unfold pastes at h
  split at h
  case h_1 text' info hs =>
    cases h
    exact ⟨⟨info, hs⟩, rfl⟩
  case h_2 => cases h

end Session

namespace Node

variable {x : Crates} {ar : Arith} {n n' : Node x} {e : NodeEvent}

theorem effects_of_acts (h : step ar n e = some n') {i : ℕ} {event : SessionEvent} (hacts : n.acts e = some (i, event))
    {s : Session} (hs : n.session? i = some s) :
    n'.core.injector = n.core.injector ++ (s.enters event).toList ∧
      n'.core.applied = n.core.applied ++ (s.pastes event).toList := by
  have hreport : ∀ (core : AppCore x) (name : String) (s : Session),
      (report core name s).injector = core.injector ∧ (report core name s).applied = core.applied := by
    intro core name s
    unfold report
    split <;> exact ⟨rfl, rfl⟩
  have hcore : ∀ (name : String) (queue : List Queued) (p : AppCore x × Session),
      s.step ar n.core event = some p →
        (n.afterStep i name s queue event p).core.injector = n.core.injector ++ (s.enters event).toList ∧
          (n.afterStep i name s queue event p).core.applied = n.core.applied ++ (s.pastes event).toList := by
    intro name queue p hp
    rw [← Session.step_injector hp, ← Session.step_applied hp]
    unfold afterStep
    dsimp only
    split_ifs
    · exact ⟨rfl, rfl⟩
    · exact hreport p.1 name p.2
  cases steps_of_step h with
  | command j epoch t name q queue p hh hstep =>
    simp only [acts, hh, Option.some.injEq, Prod.mk.injEq] at hacts
    obtain ⟨rfl, rfl⟩ := hacts
    obtain rfl : t = s := Option.some.inj ((session?_of_handle hh).symm.trans hs)
    exact hcore name queue p hstep
  | session j event' t name queue p hh hevent hstep =>
    simp only [acts, Option.some.injEq, Prod.mk.injEq] at hacts
    obtain ⟨rfl, rfl⟩ := hacts
    obtain rfl : t = s := Option.some.inj ((session?_of_handle hh).symm.trans hs)
    exact hcore name queue p hstep
  | _ => cases hacts

theorem effects_of_idle (h : step ar n e = some n') (hacts : n.acts e = none) (hdatagram : ∀ packet, e ≠ .datagram packet) :
    n'.core.injector = n.core.injector ∧ n'.core.applied = n.core.applied := by
  cases steps_of_step h with
  | receive c rest hd hc =>
    obtain ⟨cmd, answers⟩ := c
    cases cmd <;> exact ⟨rfl, rfl⟩
  | visit fingerprint cmd next targets hd =>
    unfold Node.visit
    split <;> exact ⟨rfl, rfl⟩
  | send cmd targets n' hd hsend =>
    unfold sendTo at hsend
    split at hsend
    case h_1 => exact Option.some.inj hsend ▸ ⟨rfl, rfl⟩
    case h_2 i rest =>
      split at hsend
      case h_1 => cases hsend
      case h_2 t hh => split_ifs at hsend <;> exact Option.some.inj hsend ▸ ⟨rfl, rfl⟩
  | command i epoch s name q queue p hh hstep => simp [acts, hh] at hacts
  | session i event s name queue p hh hevent hstep => cases hacts
  | datagram packet => exact absurd rfl (hdatagram packet)
  | _ => exact ⟨rfl, rfl⟩

end Node

/-! ### The process with its effects -/

/-- The process, and what it has done to its device. -/
structure Audited (x : Crates) where
  node : Node x
  /-- History: how often the inbound channel has been opened. -/
  openings : ℕ
  /-- History: the effects, with their causes. -/
  effects : List Effect

namespace Audited

open Machine

variable {x : Crates} {ar : Arith} {a b : Audited x} {e : NodeEvent} {core : AppCore x} {es : List NodeEvent}

def initial (core : AppCore x) : Audited x := ⟨.initial core, 0, []⟩

/-- What the event does to the device. -/
def causes (a : Audited x) (e : NodeEvent) : List Effect :=
  match e with
  | .datagram packet => match a.node.core.inboundRt, a.node.opener with
    | some rt, some (i, epoch) => match (rt.open x packet).2 with
      | .ok (seq, pt) => (x.decodeInput pt).toList.map (.injected i a.openings epoch seq)
      | .error _ => []
    | _, _ => []
  | _ => match a.node.acts e with
    | some (i, event) => match a.node.session? i with
      | some s => ((s.enters event).toList.filterMap fun
          | .setCursorNorm px py => some (.entered i px py)
          | .inject _ => none) ++ (s.pastes event).toList.map (.pasted i)
      | none => []
    | none => []

/-- The event opens the inbound channel. -/
def openedBy (a : Audited x) (e : NodeEvent) : Bool :=
  match a.node.acts e with
  | some (i, event) => (a.node.session? i).any fun s => (s.opens event).isSome
  | none => false

def step (ar : Arith) (a : Audited x) (e : NodeEvent) : Option (Audited x) :=
  (a.node.step ar e).map fun node =>
    ⟨node, if a.openedBy e then a.openings + 1 else a.openings, a.effects ++ a.causes e⟩

/-- A packet arrives that decrypts under the inbound channel although no such encryption is among `sealed`. -/
def Forged (log : Set (SessionKey × Channel.Sealed)) (a : Audited x) : NodeEvent → Prop
  | .datagram packet => ∃ rt ∈ a.node.core.inboundRt, ∃ pt, x.aead.decrypt rt.cipher
      (RealtimeCrypto.nonce rt.recvSalt (ofBeBytes (packet.take SEQ_LEN))) (packet.drop SEQ_LEN) rt.aad = some pt ∧
      (rt.cipher, ⟨RealtimeCrypto.nonce rt.recvSalt (ofBeBytes (packet.take SEQ_LEN)), rt.aad, pt,
        packet.drop SEQ_LEN⟩) ∉ log
  | _ => False

/-- The gate of session `i` has accepted, or a pairing in it has completed. -/
def Accepted (ar : Arith) (core : AppCore x) (es : List NodeEvent) (i : ℕ) : Prop :=
  Seen (Node.step ar) (Node.PassedGate i) (.initial core) es ∨ Node.PairingCompleted ar core es i

theorem Accepted.append {i : ℕ} (h : Accepted ar core es i) (fs : List NodeEvent) : Accepted ar core (es ++ fs) i :=
  h.imp (·.append fs) (·.append fs)

theorem run_node (hrun : run (step ar) (initial core) es = some a) :
    run (Node.step ar) (.initial core) es = some a.node := by
  refine run_induction (P := fun es a => run (Node.step ar) (.initial core) es = some a.node) rfl ?_ es a hrun
  intro es a e b _ ih hstep
  obtain ⟨node, hnode, rfl⟩ := Option.map_eq_some_iff.mp hstep
  exact (run_snoc_eq_some _).mpr ⟨a.node, ih, hnode⟩

/-- An injected event was sealed for the session that had opened the channel. -/
def Genuine (log : Set (SessionKey × Channel.Sealed)) (n : Node x) : Effect → Prop
  | .injected i _ epoch seq event => ∃ s ∈ n.session? i, s.role = .controlled ∧ ∃ pt ct,
      (s.key, ⟨RealtimeCrypto.nonce SALT_INITIATOR seq, beBytes epoch, pt, ct⟩) ∈ log ∧ x.decodeInput pt = some event
  | _ => True

/-- The inbound channel is the one that its opener has opened last, with at least the injected numbers taken. -/
structure OpenedChannel (a : Audited x) (rt : RealtimeCrypto) (i : ℕ) (epoch : BitVec 64) : Prop where
  opener : a.node.opener = some (i, epoch)
  session : ∃ s ∈ a.node.session? i, s.role = .controlled ∧
    ∃ replay, rt = { RealtimeCrypto.new s.key epoch false with replay := replay }
  taken : ∃ A, rt.replay.Tracks A ∧ ∀ eff ∈ a.effects, ∀ seq : BitVec 64, eff.number? = some (a.openings, seq) →
    seq.toNat ∈ A

structure Inv (log : Set (SessionKey × Channel.Sealed)) (ar : Arith) (core : AppCore x) (es : List NodeEvent)
    (a : Audited x) : Prop where
  injector : a.node.core.injector = a.effects.filterMap Effect.call?
  applied : a.node.core.applied = a.effects.filterMap Effect.text?
  accepted : ∀ eff ∈ a.effects, Accepted ar core es eff.session
  genuine : ∀ eff ∈ a.effects, Genuine log a.node eff
  /-- The openings so far are numbered up to `openings`. -/
  numbered : ∀ eff ∈ a.effects, ∀ opening seq, eff.number? = some (opening, seq) → opening ≤ a.openings
  once : (a.effects.filterMap Effect.number?).Nodup
  channel : ∀ rt ∈ a.node.core.inboundRt, ∃ i epoch, OpenedChannel a rt i epoch ∧ Accepted ar core es i

/-! ### One step -/

theorem session_kept {n n' : Node x} (h : Node.step ar n e = some n') {i : ℕ} {s : Session} (hs : n.session? i = some s) :
    ∃ s', n'.session? i = some s' ∧ s'.role = s.role ∧ s'.key = s.key := by
  cases hacts : n.acts e with
  | none =>
    rcases Node.session?_of_idle h hacts i with hsame | ⟨hnone, -⟩
    · exact ⟨s, hsame.trans hs, rfl, rfl⟩
    · cases hnone.symm.trans hs
  | some act =>
    obtain ⟨k, event⟩ := act
    obtain ⟨t, p, ht, hp, hsessions, -⟩ := Node.step_of_acts h hacts
    obtain ⟨hrole, hkey, -⟩ := Session.step_const hp
    by_cases hik : i = k
    · subst hik
      obtain rfl : s = t := Option.some.inj (hs.symm.trans ht)
      exact ⟨p.2, (hsessions i).trans (if_pos rfl), hrole, hkey⟩
    · exact ⟨s, ((hsessions i).trans (if_neg hik)).trans hs, rfl, rfl⟩

theorem Genuine.step {log : Set (SessionKey × Channel.Sealed)} {n n' : Node x} (h : Node.step ar n e = some n')
    {eff : Effect} (hgenuine : Genuine log n eff) : Genuine log n' eff := by
  cases eff with
  | injected i opening epoch seq event =>
    obtain ⟨s, hs, hrole, pt, ct, hmem, hdecode⟩ := hgenuine
    obtain ⟨s', hs', hrole', hkey⟩ := session_kept h hs
    exact ⟨s', hs', hrole'.trans hrole, pt, ct, hkey ▸ hmem, hdecode⟩
  | _ => trivial

variable {log : Set (SessionKey × Channel.Sealed)}

theorem Inv.effects_kept (h : Inv log ar core es a) {node : Node x} (hnode : a.node.step ar e = some node) :
    (∀ eff ∈ a.effects, Accepted ar core (es ++ [e]) eff.session) ∧ ∀ eff ∈ a.effects, Genuine log node eff :=
  ⟨fun eff heff => (h.accepted eff heff).append [e], fun eff heff => (h.genuine eff heff).step hnode⟩

theorem OpenedChannel.kept {rt : RealtimeCrypto} {i : ℕ} {epoch : BitVec 64} (h : OpenedChannel a rt i epoch)
    {node : Node x} (hnode : a.node.step ar e = some node) (hopener : node.opener = a.node.opener) (news : List Effect)
    (hnews : ∀ eff ∈ news, eff.number? = none) : OpenedChannel ⟨node, a.openings, a.effects ++ news⟩ rt i epoch := by
  obtain ⟨s, hs, hrole, replay, hrt⟩ := h.session
  obtain ⟨s', hs', hrole', hkey⟩ := session_kept hnode hs
  obtain ⟨A, htracks, hA⟩ := h.taken
  refine ⟨hopener.trans h.opener, ⟨s', hs', hrole'.trans hrole, replay, hkey ▸ hrt⟩, A, htracks, fun eff heff seq hseq => ?_⟩
  rcases List.mem_append.mp heff with hold | hnew
  · exact hA eff hold seq hseq
  · rw [hnews eff hnew] at hseq
    cases hseq

theorem Inv.idle (h : Inv log ar core es a) (hacts : a.node.acts e = none) (hdatagram : ∀ packet, e ≠ .datagram packet)
    {node : Node x} (hnode : a.node.step ar e = some node) : Inv log ar core (es ++ [e]) ⟨node, a.openings, a.effects⟩ := by
  obtain ⟨haccepted, hgenuine⟩ := h.effects_kept hnode
  obtain ⟨hinjector, happlied⟩ := Node.effects_of_idle hnode hacts hdatagram
  obtain ⟨-, hinbound, hopener⟩ := Node.core_of_idle hnode hacts
  refine ⟨hinjector.trans h.injector, happlied.trans h.applied, haccepted, hgenuine, h.numbered, h.once, ?_⟩
  have hsame : node.core.inboundRt = a.node.core.inboundRt := by
    rw [hinbound]
    cases e with
    | datagram packet => exact absurd rfl (hdatagram packet)
    | _ => rfl
  intro rt hrt
  obtain ⟨i, epoch, hchannel, hi⟩ := h.channel rt (hsame ▸ hrt)
  have hkept := hchannel.kept hnode hopener [] nofun
  rw [List.append_nil] at hkept
  exact ⟨i, epoch, hkept, hi.append [e]⟩

theorem mem_causes_of_acts {i : ℕ} {event : SessionEvent} (hacts : a.node.acts e = some (i, event)) {s : Session}
    (hs : a.node.session? i = some s) :
    a.causes e = ((s.enters event).toList.filterMap fun
      | .setCursorNorm px py => some (.entered i px py)
      | .inject _ => none) ++ (s.pastes event).toList.map (.pasted i) := by
  cases e with
  | datagram packet => cases hacts
  | _ => simp only [causes, hacts, hs]

theorem Inv.acts (h : Inv log ar core es a) (hrun : run (Node.step ar) (.initial core) es = some a.node) {k : ℕ}
    {event : SessionEvent} (hacts : a.node.acts e = some (k, event)) {node : Node x}
    (hnode : a.node.step ar e = some node) :
    Inv log ar core (es ++ [e])
      ⟨node, if a.openedBy e then a.openings + 1 else a.openings, a.effects ++ a.causes e⟩ := by
  obtain ⟨haccepted, hgenuine⟩ := h.effects_kept hnode
  obtain ⟨s, p, hs, hp, hsessions, -, hinbound, hopener, -⟩ := Node.step_of_acts hnode hacts
  obtain ⟨hinjector, happlied⟩ := Node.effects_of_acts hnode hacts hs
  have hcauses := mem_causes_of_acts (a := a) hacts hs
  have hopened : a.openedBy e = (s.opens event).isSome := by simp [openedBy, hacts, hs]
  -- a session acts in its main loop only, so it is past the gate
  have hpast : ∀ info, s.phase = .running info → Accepted ar core (es ++ [e]) k := fun info hinfo =>
    Accepted.append (Node.accepted_of_past hrun hs (by rw [hinfo]; rfl)) [e]
  have hcall : (a.causes e).filterMap Effect.call? = (s.enters event).toList ∧
      (a.causes e).filterMap Effect.text? = (s.pastes event).toList := by
    rw [hcauses]
    cases henters : s.enters event with
    | none => cases s.pastes event <;> exact ⟨rfl, rfl⟩
    | some call =>
      obtain ⟨-, -, px, py, -, rfl⟩ := Session.enters_eq_some henters
      cases s.pastes event <;> exact ⟨rfl, rfl⟩
  have hnew : ∀ eff ∈ a.causes e, eff.number? = none ∧ eff.session = k ∧ Genuine log node eff ∧
      ∃ info, s.phase = .running info := by
    intro eff heff
    rw [hcauses] at heff
    rcases List.mem_append.mp heff with hent | hpaste
    · obtain ⟨call, hmem, hcall⟩ := List.mem_filterMap.mp hent
      obtain ⟨hinfo, -, px, py, -, rfl⟩ := Session.enters_eq_some (Option.mem_toList.mp hmem)
      cases hcall
      exact ⟨rfl, rfl, trivial, hinfo⟩
    · obtain ⟨text, hmem, rfl⟩ := List.mem_map.mp hpaste
      exact ⟨rfl, rfl, trivial, (Session.pastes_eq_some (Option.mem_toList.mp hmem)).1⟩
  have hnonumber : (a.causes e).filterMap Effect.number? = [] := by
    rw [List.filterMap_eq_nil_iff]
    exact fun eff heff => (hnew eff heff).1
  refine ⟨?_, ?_, ?_, ?_, ?_, ?_, ?_⟩
  · rw [List.filterMap_append, hcall.1, ← h.injector]
    exact hinjector
  · rw [List.filterMap_append, hcall.2, ← h.applied]
    exact happlied
  · intro eff heff
    rcases List.mem_append.mp heff with hold | hlast
    · exact haccepted eff hold
    · obtain ⟨-, hsession, -, info, hinfo⟩ := hnew eff hlast
      rw [hsession]
      exact hpast info hinfo
  · intro eff heff
    rcases List.mem_append.mp heff with hold | hlast
    · exact hgenuine eff hold
    · exact (hnew eff hlast).2.2.1
  · intro eff heff opening seq hseq
    rcases List.mem_append.mp heff with hold | hlast
    · have := h.numbered eff hold opening seq hseq
      dsimp only
      split_ifs <;> omega
    · rw [(hnew eff hlast).1] at hseq
      cases hseq
  · rw [List.filterMap_append, hnonumber, List.append_nil]
    exact h.once
  · intro rt hrt
    change rt ∈ node.core.inboundRt at hrt
    rw [hinbound, Session.step_inboundRt hp] at hrt
    cases hopens : s.opens event with
    | some epoch =>
      -- a new channel, under a new number
      rw [hopens] at hrt hopener
      obtain rfl := Option.some.inj hrt
      obtain ⟨hrunning, hrole, -⟩ := Session.opens_eq_some hopens
      obtain ⟨hrole', hkey, -⟩ := Session.step_const hp
      rw [hopened, hopens]
      refine ⟨k, epoch, ⟨hopener, ⟨p.2, (hsessions k).trans (if_pos rfl), hrole'.trans hrole, {}, by rw [hkey]; rfl⟩, ∅,
        ReplayWindow.tracks_default, ?_⟩, ?_⟩
      · intro eff heff seq hseq
        rcases List.mem_append.mp heff with hold | hlast
        · have hle := h.numbered eff hold _ seq hseq
          simp only [Option.isSome_some, if_true] at hle
          omega
        · rw [(hnew eff hlast).1] at hseq
          cases hseq
      · obtain ⟨info, hinfo⟩ : ∃ info, s.phase = .running info := by
          cases hphase : s.phase with
          | running info => exact ⟨info, rfl⟩
          | _ =>
            rw [hphase] at hrunning
            cases hrunning
        exact hpast info hinfo
    | none =>
      rw [hopens] at hrt hopener
      dsimp only at hrt
      split_ifs at hrt with hclears
      · cases hrt
      · obtain ⟨i, epoch, hchannel, hi⟩ := h.channel rt hrt
        rw [hopened, hopens]
        exact ⟨i, epoch, hchannel.kept hnode hopener _ fun eff heff => (hnew eff heff).1, hi.append [e]⟩

theorem Inv.opened (h : Inv log ar core es a) {packet : Bytes} (hideal : ¬ Forged log a (.datagram packet))
    {rt : RealtimeCrypto} (hrt : a.node.core.inboundRt = some rt) {seq : BitVec 64} {pt : Bytes}
    (hopen : (rt.open x packet).2 = .ok (seq, pt)) {i : ℕ} {epoch : BitVec 64} (hchannel : OpenedChannel a rt i epoch)
    (hi : Accepted ar core es i) (hcauses : a.causes (.datagram packet) =
      (x.decodeInput pt).toList.map (.injected i a.openings epoch seq)) :
    Inv log ar core (es ++ [.datagram packet])
      ⟨{ a.node with core := Node.datagram a.node.core packet }, a.openings, a.effects ++ a.causes (.datagram packet)⟩ := by
  obtain ⟨haccepted, hgenuine⟩ := h.effects_kept (e := .datagram packet) rfl
  obtain ⟨s, hs, hrole, replay, rfl⟩ := hchannel.session
  obtain ⟨A, htracks, hA⟩ := hchannel.taken
  obtain ⟨-, hseq, hdec, haccept, hnext⟩ := RealtimeCrypto.open_ok hopen
  have hcore : Node.datagram a.node.core packet = { a.node.core with
      inboundRt := some (RealtimeCrypto.open x { RealtimeCrypto.new s.key epoch false with replay := replay } packet).1
      injector := a.node.core.injector ++ (x.decodeInput pt).toList.map InjectorCall.inject } := by
    unfold Node.datagram
    simp only [hrt, hopen]
    cases x.decodeInput pt <;> simp
  have hnew : ∀ eff ∈ a.causes (.datagram packet), ∃ event, x.decodeInput pt = some event ∧
      eff = .injected i a.openings epoch seq event := by
    intro eff heff
    rw [hcauses] at heff
    obtain ⟨event, hmem, rfl⟩ := List.mem_map.mp heff
    exact ⟨event, Option.mem_toList.mp hmem, rfl⟩
  rcases ReplayWindow.accept_cases htracks seq with ⟨hfresh, -, htracks'⟩ | ⟨-, hfalse⟩
  · refine ⟨?_, ?_, ?_, ?_, ?_, ?_, ?_⟩
    · dsimp only
      rw [hcore, List.filterMap_append, ← h.injector, hcauses, List.filterMap_map]
      cases x.decodeInput pt <;> rfl
    · dsimp only
      rw [hcore, List.filterMap_append, ← h.applied, hcauses, List.filterMap_map]
      cases x.decodeInput pt <;> simp [Effect.text?]
    · intro eff heff
      rcases List.mem_append.mp heff with hold | hlast
      · exact haccepted eff hold
      · obtain ⟨event, -, rfl⟩ := hnew eff hlast
        exact hi.append _
    · intro eff heff
      rcases List.mem_append.mp heff with hold | hlast
      · exact hgenuine eff hold
      · obtain ⟨event, hevent, rfl⟩ := hnew eff hlast
        refine ⟨s, hs, hrole, pt, packet.drop SEQ_LEN, ?_, hevent⟩
        by_contra hnot
        rw [hseq] at hdec hnot
        exact hideal ⟨_, hrt, pt, hdec, hnot⟩
    · intro eff heff opening seq' hseq'
      rcases List.mem_append.mp heff with hold | hlast
      · exact h.numbered eff hold opening seq' hseq'
      · obtain ⟨event, -, rfl⟩ := hnew eff hlast
        cases hseq'
        exact le_rfl
    · rw [List.filterMap_append, List.nodup_append]
      refine ⟨h.once, ?_, ?_⟩
      · rw [hcauses]
        cases x.decodeInput pt <;> simp [Effect.number?]
      · -- the number has not been taken under this opening
        rintro number hnumber number' hnumber' rfl
        obtain ⟨eff, heff, hold⟩ := List.mem_filterMap.mp hnumber
        obtain ⟨eff', heff', hlast⟩ := List.mem_filterMap.mp hnumber'
        obtain ⟨event, -, rfl⟩ := hnew eff' heff'
        cases hlast
        exact hfresh.1 (hA eff heff seq hold)
    · intro rt' hrt'
      dsimp only at hrt'
      rw [hcore] at hrt'
      obtain rfl := Option.some.inj hrt'
      refine ⟨i, epoch, ⟨hchannel.opener, ⟨s, hs, hrole, _, by rw [hnext]⟩, insert seq.toNat A, ?_, ?_⟩, hi.append _⟩
      · rw [hnext]
        exact htracks'
      · intro eff heff seq' hseq'
        rcases List.mem_append.mp heff with hold | hlast
        · exact Set.mem_insert_of_mem _ (hA eff hold seq' hseq')
        · obtain ⟨event, -, rfl⟩ := hnew eff hlast
          cases hseq'
          exact Set.mem_insert _ _
  · rw [show (RealtimeCrypto.replay _) = replay from rfl] at haccept
    rw [hfalse] at haccept
    cases haccept

theorem Inv.datagram (h : Inv log ar core es a) {packet : Bytes} (hideal : ¬ Forged log a (.datagram packet)) :
    Inv log ar core (es ++ [.datagram packet])
      ⟨{ a.node with core := Node.datagram a.node.core packet }, a.openings, a.effects ++ a.causes (.datagram packet)⟩ := by
  have hnone : ∀ core' : AppCore x, core'.inboundRt = a.node.core.inboundRt →
      core'.injector = a.node.core.injector → core'.applied = a.node.core.applied →
      Node.datagram a.node.core packet = core' → a.causes (.datagram packet) = [] →
      Inv log ar core (es ++ [.datagram packet]) ⟨{ a.node with core := Node.datagram a.node.core packet }, a.openings,
        a.effects ++ a.causes (.datagram packet)⟩ := by
    intro core' hinbound hinjector happlied hcore hcauses
    obtain ⟨haccepted, hgenuine⟩ := h.effects_kept (e := .datagram packet) rfl
    rw [hcauses, List.append_nil]
    refine ⟨?_, ?_, haccepted, hgenuine, h.numbered, h.once, ?_⟩
    · dsimp only
      rw [hcore, hinjector, h.injector]
    · dsimp only
      rw [hcore, happlied, h.applied]
    · intro rt hrt
      dsimp only at hrt
      rw [hcore, hinbound] at hrt
      obtain ⟨i, epoch, hchannel, hi⟩ := h.channel rt hrt
      have hnode : a.node.step ar (.datagram packet) =
          some { a.node with core := Node.datagram a.node.core packet } := rfl
      have hkept := hchannel.kept hnode rfl [] nofun
      rw [List.append_nil] at hkept
      exact ⟨i, epoch, hkept, hi.append _⟩
  cases hrt : a.node.core.inboundRt with
  | none =>
    refine hnone a.node.core rfl rfl rfl ?_ (by simp only [causes, hrt])
    simp only [Node.datagram, hrt]
  | some rt =>
    obtain ⟨i, epoch, hchannel, hi⟩ := h.channel rt hrt
    cases hopen : (rt.open x packet).2 with
    | error err =>
      refine hnone { a.node.core with inboundRt := some rt } hrt.symm rfl rfl ?_ ?_
      · simp only [Node.datagram, hrt, hopen, RealtimeCrypto.open_error hopen]
      · simp only [causes, hrt, hchannel.opener, hopen]
    | ok res =>
      obtain ⟨seq, pt⟩ := res
      refine h.opened hideal hrt hopen hchannel hi ?_
      simp only [causes, hrt, hchannel.opener, hopen]

/-! ### Every run -/

theorem run_inv (hcore : core.injector = [] ∧ core.applied = [] ∧ core.inboundRt = none)
    (hrun : run (step ar) (initial core) es = some a) (hideal : ¬ Seen (step ar) (Forged log) (initial core) es) :
    Inv log ar core es a := by
  obtain ⟨hinjector, happlied, hinbound⟩ := hcore
  revert hideal
  refine run_induction (P := fun es a => ¬ Seen (step ar) (Forged log) (initial core) es → Inv log ar core es a)
    ?_ ?_ es a hrun
  · intro _
    refine ⟨hinjector, happlied, nofun, nofun, nofun, List.nodup_nil, fun rt hrt => ?_⟩
    change rt ∈ core.inboundRt at hrt
    rw [hinbound] at hrt
    cases hrt
  · intro es a e b ha ih hstep hideal
    rw [seen_snoc ha, not_or] at hideal
    have hinv := ih hideal.1
    obtain ⟨node, hnode, rfl⟩ := Option.map_eq_some_iff.mp hstep
    cases hacts : a.node.acts e with
    | some act => exact hinv.acts (run_node ha) hacts hnode
    | none =>
      have hopened : a.openedBy e = false := by simp [openedBy, hacts]
      rw [hopened, if_neg Bool.false_ne_true]
      cases e with
      | datagram packet =>
        cases hnode
        exact hinv.datagram hideal.2
      | _ =>
        rw [show a.causes _ = [] by simp only [causes, hacts], List.append_nil]
        exact hinv.idle hacts nofun hnode

/-- In every run of the process in which no packet is forged: the calls of the injector and the texts handed to the
clipboard are the recorded effects, each of them of a session whose gate has accepted or that has completed a pairing; an
injected event was sealed under that session's key, the epoch it opened the channel with and the packet's number, and no
number is injected twice between two openings. -/
theorem effects_accounted (hcore : core.injector = [] ∧ core.applied = [] ∧ core.inboundRt = none)
    (hrun : run (step ar) (initial core) es = some a) (hideal : ¬ Seen (step ar) (Forged log) (initial core) es) :
    a.node.core.injector = a.effects.filterMap Effect.call? ∧ a.node.core.applied = a.effects.filterMap Effect.text? ∧
      (∀ eff ∈ a.effects, Accepted ar core es eff.session ∧ Genuine log a.node eff) ∧
      (a.effects.filterMap Effect.number?).Nodup := by
  have hinv := run_inv hcore hrun hideal
  exact ⟨hinv.injector, hinv.applied, fun eff heff => ⟨hinv.accepted eff heff, hinv.genuine eff heff⟩, hinv.once⟩

/-- Alice controls Bob and presses Shift; the packet arrives twice. -/
def shiftTwice : List NodeEvent :=
  let packet := beBytes 0 ++ [106, 225, 82, 250, 171, 80, 204, 226, 128, 82, 156, 225, 157, 162, 98, 30, 248, 139, 84]
  Node.aliceControls 0 (Vector.replicate 32 7) 1 ++ [.datagram packet, .datagram packet]

/-- What Alice has sealed. -/
def shiftSealed : Set (SessionKey × Channel.Sealed) :=
  {(Vector.replicate 32 7, ⟨RealtimeCrypto.nonce SALT_INITIATOR 0, beBytes 1, [4, 50, 1],
    [106, 225, 82, 250, 171, 80, 204, 226, 128, 82, 156, 225, 157, 162, 98, 30, 248, 139, 84]⟩)}

/-- The press is injected once, for Alice's session. -/
theorem effects_accounted_shift :
    ∃ a, run (step .exact) (initial heldCore) shiftTwice = some a ∧
      a.effects = [.injected 0 1 1 0 (.key .shiftLeft true)] ∧ a.node.core.injector = [.inject (.key .shiftLeft true)] ∧
        Accepted .exact heldCore shiftTwice 0 := by
  have hnone : ∀ (a : Audited heldCrates) e, ¬ Forged shiftSealed a e := by
    intro a e hforged
    unfold Forged at hforged
    split at hforged
    case h_1 packet =>
      obtain ⟨rt, -, pt, hdec, hnot⟩ := hforged
      simp only [heldCrates, heldAead] at hdec
      split_ifs at hdec with hsealed
      obtain ⟨hkey, haad, hnonce, hct⟩ := hsealed
      cases hdec
      exact hnot (by rw [hkey, haad, hnonce, hct]; rfl)
    case h_2 => exact hforged
  have hideal : ¬ Seen (step .exact) (Forged shiftSealed) (initial heldCore) shiftTwice := by
    rintro ⟨es₁, e, es₂, a, -, -, hforged⟩
    exact hnone a e hforged
  obtain ⟨a, hrun, heffects⟩ : ∃ a, run (step .exact) (initial heldCore) shiftTwice = some a ∧
      a.effects = [.injected 0 1 1 0 (.key .shiftLeft true)] := exists_run (by decide +kernel)
  obtain ⟨hinjector, -, haccounted, -⟩ := effects_accounted ⟨rfl, rfl, rfl⟩ hrun hideal
  rw [heffects] at hinjector haccounted
  exact ⟨a, hrun, heffects, hinjector, (haccounted _ List.mem_cons_self).1⟩

end Audited

end ScreenLink
