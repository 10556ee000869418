import ScreenLink.Lib.Register
import ScreenLink.Session.Inbound
import ScreenLink.Session.Threads

/-!
# Which position the cursor ends at

A controller's loop, its control stream and its datagrams, and the device it controls. `EdgeEnter` comes through the
stream, which keeps its order, and `MouseMoveAbs` in datagrams, which the network may lose, repeat and reorder. The
places of the positions in the loop's output say which was sent later. For the positions the system is a register
written by messages (`history_step`): handling an `EdgeEnter` writes, a datagram is refused or held until it is
injected. So the latest position sent wins iff no position is applied after a newer one, and no datagram with the newest
position delivered so far is refused (`latest_position_iff`). The replay window takes any new number less than 64
behind, so two moves that change places are enough (`older_move_wins`).
-/

namespace ScreenLink

open Machine Register

/-- What `postcard` makes of an event, it reads back. -/
def Crates.Decodes (x : Crates) : Prop :=
  ∀ ev payload, x.encodeInput ev = some payload → x.decodeInput payload = some ev

def InputEvent.position? : InputEvent → Option (F32 × F32)
  | .mouseMoveAbs px py => some (px, py)
  | _ => none

theorem InputEvent.eq_of_position {ev : InputEvent} {position : F32 × F32} (h : ev.position? = some position) :
    ∃ px py, ev = .mouseMoveAbs px py := by
  cases ev with
  | mouseMoveAbs px py => exact ⟨px, py, rfl⟩
  | _ => cases h

def ControlMsg.position? : ControlMsg → Option (F32 × F32)
  | .edgeEnter px py => some (px, py)
  | _ => none

theorem ControlMsg.eq_of_position {msg : ControlMsg} {position : F32 × F32} (h : msg.position? = some position) :
    ∃ px py, msg = .edgeEnter px py := by
  cases msg with
  | edgeEnter px py => exact ⟨px, py, rfl⟩
  | _ => cases h

def HostOut.position? : HostOut → Option (F32 × F32)
  | .udp ev _ => ev.position?
  | .ctrl msg => msg.position?
  | _ => none

def InjectorCall.position? : InjectorCall → Option (F32 × F32)
  | .setCursorNorm px py => some (px, py)
  | .inject ev => ev.position?

/-- What a controller's session sends in its main loop, besides its input loop. -/
def ControlMsg.ofMainLoop : ControlMsg → Bool
  | .ping _ | .pong _ | .clipboard _ | .startMirror _ | .stopMirror => true
  | _ => false

/-- A controlled session in its main loop. -/
structure Ready where
  session : Session
  info : DeviceInfo
  running : session.phase = .running info
  controlled : session.role = .controlled

/-- A controller and the device it controls. -/
structure Steering (x : Crates) where
  /-- The controller's loop. -/
  input : HostInput
  /-- The control messages not yet read, those of the loop with their place in its output (history). -/
  stream : List (ControlMsg × Option ℕ)
  core : AppCore x
  session : Session
  /-- An event that is decrypted and not yet injected, with the place of its datagram (history). -/
  decoded : Option (InputEvent × ℕ)
  /-- History: the places of the positions that have been delivered. -/
  delivered : List ℕ
  /-- History: the places of the positions that have been applied. -/
  applied : List ℕ

inductive SteeringEvent
  /-- An iteration of the controller's loop. -/
  | loop (tick : HostTick)
  /-- The controller's session sends another message. -/
  | send (msg : ControlMsg)
  /-- The controlled session reads the next message. -/
  | read
  /-- Any other step of the controlled session. -/
  | session (event : SessionEvent)
  /-- The datagram at this place of the output arrives, and is opened. -/
  | arrive (place : ℕ)
  | inject

namespace Steering

variable {x : Crates}

/-- The realtime channel is announced and nothing has been sent on it. -/
def initial (core : AppCore x) (ready : Ready) (edge : ScreenEdge) (port : BitVec 16) (epoch : BitVec 64) :
    Steering x where
  input := .start edge 25 (.new ready.session.key epoch true)
  stream := [(.setMode .control, none), (.realtimeOpen port epoch, none)]
  core := { core with inboundRt := none, injector := [] }
  session := ready.session
  decoded := none
  delivered := []
  applied := []

theorem initial_of_wire (core : AppCore x) (ready : Ready) (edge : ScreenEdge) (epoch : BitVec 64) {core' : AppCore x}
    {s : Session} {ip : IpAddr} (hrole : s.role = .controller ip edge) (hkey : s.key = ready.session.key)
    (hwriter : s.writer = true) (info : DeviceInfo) (desktop : Rect) :
    let t : Steering x := initial core ready edge core'.realtimePort epoch
    let s' := (Session.wire core' s info epoch desktop none).2
    s'.host = some ⟨t.input, desktop, [edge], false, false⟩ ∧ s'.out = s.out ++ t.stream.map Prod.fst := by
  simp [Session.wire, hrole, initial, hkey, Session.send, hwriter]

/-- The control messages in the output from `place` on. -/
def ctrlFrom (out : List HostOut) (place : ℕ) : List (ControlMsg × Option ℕ) :=
  (out.zipIdx.drop place).filterMap fun
    | (.ctrl msg, i) => some (msg, some i)
    | _ => none

/-- The place, if a position is sent there. -/
def mark (position : Option (F32 × F32)) (place : ℕ) : Option ℕ := position.map fun _ => place

/-- Open a packet under the inbound lock. -/
def openPacket (t : Steering x) (place : ℕ) (ev : InputEvent) (packet : Bytes) : Steering x :=
  let t := { t with delivered := t.delivered ++ (mark ev.position? place).toList }
  match t.core.inboundRt with
  | none => t
  | some rt =>
    let (rt, res) := rt.open x packet
    { t with
      core := { t.core with inboundRt := some rt }
      decoded := match res with
        | .error _ => none
        | .ok (_, pt) => (x.decodeInput pt).map fun event => (event, place) }

/-- One step; `none` if the event cannot happen now. -/
def step (ar : Arith) (desktop : Rect) (t : Steering x) (e : SteeringEvent) : Option (Steering x) :=
  match e with
  | .loop tick =>
    let input := hostIter x ar desktop t.input tick
    some { t with input := input, stream := t.stream ++ ctrlFrom input.out t.input.out.length }
  | .send msg => if msg.ofMainLoop then some { t with stream := t.stream ++ [(msg, none)] } else none
  | .read => match t.stream with
    | [] => none
    | (msg, place) :: rest => (t.session.step ar t.core (.recv msg)).map fun p =>
      let entered := (place.bind (mark msg.position?)).toList
      { t with
        stream := rest
        core := p.1
        session := p.2
        delivered := t.delivered ++ entered
        applied := t.applied ++ entered }
  | .session event => match event with
    | .recv _ => none
    | _ => (t.session.step ar t.core event).map fun p => { t with core := p.1, session := p.2 }
  | .arrive place => match t.input.out[place]?, t.decoded with
    | some (.udp ev packet), none => some (t.openPacket place ev packet)
    | _, _ => none
  | .inject => match t.decoded with
    | none => none
    | some (ev, place) => some { t with
      core := { t.core with injector := t.core.injector ++ [.inject ev] }
      decoded := none
      applied := t.applied ++ (mark ev.position? place).toList }

/-- The position sent at a place of the output. -/
def positionAt (t : Steering x) (place : ℕ) : Option (F32 × F32) := t.input.out[place]?.bind HostOut.position?

/-- The place of the position that is decrypted and not yet injected. -/
def pending (t : Steering x) : Option ℕ := t.decoded.bind fun entry => mark entry.1.position? entry.2

structure LatestWins (t : Steering x) : Prop where
  /-- The cursor has been put at the positions applied, one after the other. -/
  cursor : t.applied.map t.positionAt = (t.core.injector.filterMap InjectorCall.position?).map some
  /-- An older position never overrides a newer one. -/
  inOrder : t.applied.Pairwise (· ≤ ·)
  /-- When every position delivered has been handled, the last one applied is the one sent last. It is asked of every
  such state, also while the stream still carries a position: that one has not been delivered. -/
  newest : t.pending = none → t.applied.getLast? = t.delivered.max?

/-- The channel is not open, or its window does not take the packet's number. -/
def Refuses (t : Steering x) (packet : Bytes) : Prop :=
  ∀ rt ∈ t.core.inboundRt, (rt.replay.accept (ofBeBytes (packet.take SEQ_LEN))).2 = false

/-- A position is applied after a newer one, or the newest delivered so far is refused. -/
def Overtakes (t : Steering x) : SteeringEvent → Prop
  | .read => ∃ px py place rest, t.stream = (.edgeEnter px py, some place) :: rest ∧ ∃ newer ∈ t.applied, place < newer
  | .inject => ∃ px py place, t.decoded = some (.mouseMoveAbs px py, place) ∧ ∃ newer ∈ t.applied, place < newer
  | .arrive place => (∃ px py packet, t.input.out[place]? = some (.udp (.mouseMoveAbs px py) packet) ∧
      t.Refuses packet) ∧ ∀ earlier ∈ t.delivered, earlier < place
  | _ => False

/-! ### What the two ends agree on -/

section
variable (x) (key : SessionKey) (epoch : BitVec 64)

/-- A packet in the loop's output is what the cipher made of its event; the loop announces no channel. -/
def Sound : HostOut → Prop
  | .udp ev packet => ∃ payload seq ct, x.encodeInput ev = some payload ∧ packet = beBytes seq ++ ct ∧
      x.aead.encrypt key (RealtimeCrypto.nonce SALT_INITIATOR seq) payload (beBytes epoch) = some ct
  | .ctrl msg => ∀ port other, msg ≠ .realtimeOpen port other
  | _ => True

/-- The controller's context is the channel's, and its output sound. -/
def SealsFor (rt : RealtimeCrypto) (_ : List (BitVec 64)) (out : List HostOut) : Prop :=
  (rt.cipher = key ∧ rt.sendSalt = SALT_INITIATOR ∧ rt.aad = beBytes epoch) ∧ ∀ o ∈ out, Sound x key epoch o

/-- A message in the stream. -/
structure InStream (out : List HostOut) (entry : ControlMsg × Option ℕ) : Prop where
  place : ∀ i, entry.2 = some i → out[i]? = some (.ctrl entry.1)
  position : entry.2 = none → entry.1.position? = none
  announces : ∀ port other, entry.1 = .realtimeOpen port other → other = epoch

structure Wired (t : Steering x) : Prop where
  loop : HostInput.Holds (SealsFor x key epoch) t.input
  stream : ∀ entry ∈ t.stream, InStream epoch t.input.out entry
  role : t.session.role = .controlled
  sameKey : t.session.key = key
  started : t.session.phase.started = true
  inbound : ∀ rt ∈ t.core.inboundRt, ∃ replay, rt = { RealtimeCrypto.new key epoch false with replay := replay }
  decoded : ∀ ev place, t.decoded = some (ev, place) → ∃ packet, t.input.out[place]? = some (.udp ev packet)
  cursor : t.applied.map t.positionAt = (t.core.injector.filterMap InjectorCall.position?).map some

end

variable {key : SessionKey} {epoch : BitVec 64}

theorem keptByLoop_sealsFor (x : Crates) (key : SessionKey) (epoch : BitVec 64) :
    KeptByLoop x (SealsFor x key epoch) := by
  refine ⟨fun h ev hh => ?_, fun rt sealed out o ho hh => ⟨hh.1, fun o' ho' => ?_⟩⟩
  · obtain ⟨⟨hcipher, hsalt, haad⟩, hout⟩ := hh
    unfold HostInput.sendRt
    cases hpayload : x.encodeInput ev with
    | none => exact ⟨⟨hcipher, hsalt, haad⟩, hout⟩
    | some payload =>
      dsimp only
      rw [Channel.seal_eq, hcipher, hsalt, haad]
      cases hct : x.aead.encrypt key (RealtimeCrypto.nonce SALT_INITIATOR h.rt.sendSeq) payload (beBytes epoch) with
      | none => exact ⟨⟨rfl, rfl, rfl⟩, hout⟩
      | some ct =>
        refine ⟨⟨rfl, rfl, rfl⟩, fun o ho => ?_⟩
        rcases List.mem_append.mp ho with hold | hnew
        · exact hout o hold
        · rw [List.mem_singleton.mp hnew]
          exact ⟨payload, h.rt.sendSeq, ct, hpayload, rfl, hct⟩
  · rcases List.mem_append.mp ho' with hold | hnew
    · exact hh.2 o' hold
    · rw [List.mem_singleton.mp hnew]
      cases o with
      | udp ev packet => cases ho
      | ctrl msg =>
        rintro port other rfl
        exact ho
      | _ => trivial

theorem mem_ctrlFrom {out : List HostOut} {place : ℕ} {entry : ControlMsg × Option ℕ}
    (hmem : entry ∈ ctrlFrom out place) : ∃ i, entry.2 = some i ∧ out[i]? = some (.ctrl entry.1) := by
  obtain ⟨⟨o, i⟩, ho, hentry⟩ := List.mem_filterMap.mp hmem
  have hget : out[i]? = some o := List.mem_zipIdx_iff_getElem?.mp (List.mem_of_mem_drop ho)
  cases o with
  | ctrl msg =>
    obtain rfl := Option.some.inj hentry
    exact ⟨i, rfl, hget⟩
  | _ => cases hentry

variable {ar : Arith} {desktop : Rect} {t u : Steering x}

theorem out_loop (t : Steering x) (tick : HostTick) {i : ℕ} {o : HostOut} (hi : t.input.out[i]? = some o) :
    (hostIter x ar desktop t.input tick).out[i]? = some o := by
  obtain ⟨news, hout, -⟩ := hostIter_out (x := x) ar desktop t.input tick
  rw [hout, List.getElem?_append_left (List.getElem?_eq_some_iff.mp hi).1]
  exact hi

theorem wired_loop (h : Wired x key epoch t) (tick : HostTick) (hstep : step ar desktop t (.loop tick) = some u) :
    Wired x key epoch u := by
  obtain rfl := Option.some.inj hstep
  have hloop := hostIter_holds (keptByLoop_sealsFor x key epoch) ar desktop t.input tick h.loop
  refine ⟨hloop, ?_, h.role, h.sameKey, h.started, h.inbound, ?_, ?_⟩
  · intro entry hentry
    rcases List.mem_append.mp hentry with hold | hnew
    · obtain ⟨hplace, hposition, hepoch⟩ := h.stream entry hold
      exact ⟨fun i hi => out_loop t tick (hplace i hi), hposition, hepoch⟩
    · obtain ⟨i, hi, hget⟩ := mem_ctrlFrom hnew
      refine ⟨fun j hj => ?_, fun hnone => ?_, fun port other hopen => ?_⟩
      · rw [← Option.some.inj (hi.symm.trans hj)]
        exact hget
      · rw [hi] at hnone
        cases hnone
      · exact absurd hopen (hloop.2 _ (List.mem_of_getElem? hget) port other)
  · intro ev place hdecoded
    obtain ⟨packet, hget⟩ := h.decoded ev place hdecoded
    exact ⟨packet, out_loop t tick hget⟩
  · refine Eq.trans (List.map_congr_left fun place hplace => ?_) h.cursor
    have hsome : t.positionAt place ∈ t.applied.map t.positionAt := List.mem_map_of_mem hplace
    rw [h.cursor] at hsome
    obtain ⟨position, -, hposition⟩ := List.mem_map.mp hsome
    obtain ⟨o, hget, ho⟩ := Option.bind_eq_some_iff.mp hposition.symm
    show (hostIter x ar desktop t.input tick).out[place]?.bind HostOut.position? = t.positionAt place
    rw [out_loop t tick hget, ← hposition]
    exact ho

theorem wired_send (h : Wired x key epoch t) (msg : ControlMsg) (hstep : step ar desktop t (.send msg) = some u) :
    Wired x key epoch u := by
  simp only [step] at hstep
  split_ifs at hstep with hmain
  obtain rfl := Option.some.inj hstep
  refine ⟨h.loop, fun entry hentry => ?_, h.role, h.sameKey, h.started, h.inbound, h.decoded, h.cursor⟩
  rcases List.mem_append.mp hentry with hold | hnew
  · exact h.stream entry hold
  · rw [List.mem_singleton.mp hnew]
    refine ⟨nofun, fun _ => ?_, ?_⟩
    · cases msg <;> first | rfl | cases hmain
    · rintro port other rfl
      cases hmain

theorem running_of_recv {core : AppCore x} {s : Session} {msg : ControlMsg} {p : AppCore x × Session}
    (hstep : s.step ar core (.recv msg) = some p) (hstarted : s.phase.started = true) :
    ∃ info, s.phase = .running info := by
  cases Session.steps_of_step hstep with
  | recvHello _ hs =>
    rw [hs] at hstarted
    cases hstarted
  | pairingRecv info st _ hs =>
    rw [hs] at hstarted
    cases hstarted
  | runningRecv info _ hs => exact ⟨info, hs⟩

theorem wired_session (h : Wired x key epoch t) {event : SessionEvent} {p : AppCore x × Session}
    (hp : t.session.step ar t.core event = some p)
    (hopens : ∀ port other, event = .recv (.realtimeOpen port other) → other = epoch) :
    p.2.role = .controlled ∧ p.2.key = key ∧ p.2.phase.started = true ∧
      ∀ rt ∈ p.1.inboundRt, ∃ replay, rt = { RealtimeCrypto.new key epoch false with replay := replay } := by
  obtain ⟨hrole, hkey, -⟩ := Session.step_const hp
  refine ⟨hrole.trans h.role, hkey.trans h.sameKey, Phase.started_of_moves (Session.step_moves hp) h.started, ?_⟩
  rw [Session.step_inboundRt hp]
  cases hopen : t.session.opens event with
  | some other =>
    obtain ⟨-, -, port, rfl⟩ := Session.opens_eq_some hopen
    rintro rt ⟨⟩
    exact ⟨{}, by rw [h.sameKey, hopens port other rfl]; rfl⟩
  | none =>
    dsimp only
    split_ifs
    · exact nofun
    · exact h.inbound

theorem toList_filterMap {α β : Type*} (o : Option α) (f : α → Option β) :
    o.toList.filterMap f = (o.bind f).toList := by
  cases o with
  | none => rfl
  | some a => cases hf : f a <;> simp [hf]

theorem wired_read (h : Wired x key epoch t) (hstep : step ar desktop t .read = some u) : Wired x key epoch u := by
  simp only [step] at hstep
  split at hstep
  case h_1 => cases hstep
  case h_2 msg place rest hstream =>
    obtain ⟨p, hp, rfl⟩ := Option.map_eq_some_iff.mp hstep
    obtain ⟨hplace, hposition, hannounces⟩ := h.stream (msg, place) (by simp [hstream])
    obtain ⟨hrole, hkey, hstarted, hinbound⟩ := wired_session h hp fun port other heq =>
      hannounces port other (SessionEvent.recv.inj heq)
    refine ⟨h.loop, fun entry hentry => h.stream entry (by simp [hstream, hentry]), hrole, hkey, hstarted, hinbound,
      h.decoded, ?_⟩
    -- the injector is called for a position, and its place is known
    obtain ⟨info, hinfo⟩ := running_of_recv hp h.started
    have henters : (t.session.enters (.recv msg)).bind InjectorCall.position? = msg.position? := by
      cases msg <;> simp [Session.enters, hinfo, h.role, InjectorCall.position?, ControlMsg.position?]
    have hmark : (place.bind (mark msg.position?)).toList.map t.positionAt = msg.position?.toList.map some := by
      cases hpos : msg.position? with
      | none => cases place <;> rfl
      | some position =>
        obtain ⟨i, rfl⟩ : ∃ i, place = some i := by
          cases place with
          | none =>
            rw [hposition rfl] at hpos
            cases hpos
          | some i => exact ⟨i, rfl⟩
        have hat : t.positionAt i = some position := by
          rw [positionAt, hplace i rfl]
          exact hpos
        simp [mark, hat]
    show (t.applied ++ _).map t.positionAt = (p.1.injector.filterMap _).map some
    rw [Session.step_injector hp, List.filterMap_append, toList_filterMap, henters, List.map_append, List.map_append,
      h.cursor, hmark]

theorem session_step {event : SessionEvent} (hstep : step ar desktop t (.session event) = some u) :
    ∃ p, (∀ msg, event ≠ .recv msg) ∧ t.session.step ar t.core event = some p ∧
      u = { t with core := p.1, session := p.2 } := by
  have hrecv : ∀ msg, event ≠ .recv msg := by
    rintro msg rfl
    cases hstep
  have hstep' : (t.session.step ar t.core event).map (fun p => { t with core := p.1, session := p.2 }) = some u := by
    cases event with
    | recv msg => exact absurd rfl (hrecv msg)
    | _ => exact hstep
  obtain ⟨p, hp, rfl⟩ := Option.map_eq_some_iff.mp hstep'
  exact ⟨p, hrecv, hp, rfl⟩

theorem wired_other (h : Wired x key epoch t) {event : SessionEvent}
    (hstep : step ar desktop t (.session event) = some u) : Wired x key epoch u := by
  obtain ⟨p, hrecv, hp, rfl⟩ := session_step hstep
  obtain ⟨hrole, hkey, hstarted, hinbound⟩ := wired_session h hp fun port other heq => absurd heq (hrecv _)
  refine ⟨h.loop, h.stream, hrole, hkey, hstarted, hinbound, h.decoded, ?_⟩
  have henters : t.session.enters event = none := by
    unfold Session.enters
    split
    case h_1 => exact absurd rfl (hrecv _)
    case h_2 => rfl
  show t.applied.map t.positionAt = (p.1.injector.filterMap _).map some
  rw [Session.step_injector hp, henters, Option.toList_none, List.append_nil]
  exact h.cursor

/-! ### What becomes of a datagram -/

/-- A sound packet is opened, and its event read, exactly when the window takes its number. -/
theorem open_sound (hcorrect : x.aead.Correct) (hdecodes : x.Decodes) {ev : InputEvent} {packet : Bytes}
    (hsound : Sound x key epoch (.udp ev packet)) (replay : ReplayWindow) :
    let rt : RealtimeCrypto := { RealtimeCrypto.new key epoch false with replay := replay }
    ((replay.accept (ofBeBytes (packet.take SEQ_LEN))).2 = false ∧ ∃ err, (rt.open x packet).2 = .error err) ∨
      ((replay.accept (ofBeBytes (packet.take SEQ_LEN))).2 = true ∧
        ∃ seq pt, (rt.open x packet).2 = .ok (seq, pt) ∧ x.decodeInput pt = some ev) := by
  intro rt
  obtain ⟨payload, seq, ct, hpayload, rfl, henc⟩ := hsound
  have htake : (beBytes seq ++ ct).take SEQ_LEN = beBytes seq := List.take_left' (length_beBytes seq)
  have hseq : ofBeBytes ((beBytes seq ++ ct).take SEQ_LEN) = seq := by rw [htake, ofBeBytes_beBytes]
  rw [hseq]
  cases haccept : (replay.accept seq).2 with
  | false =>
    left
    refine ⟨rfl, ?_⟩
    cases hres : (rt.open x (beBytes seq ++ ct)).2 with
    | error err => exact ⟨err, rfl⟩
    | ok res =>
      obtain ⟨-, hres', -, hfresh, -⟩ := RealtimeCrypto.open_ok hres
      rw [hres', hseq] at hfresh
      rw [haccept] at hfresh
      cases hfresh
  | true =>
    right
    have hdec : x.aead.decrypt rt.cipher (RealtimeCrypto.nonce rt.recvSalt seq) ct rt.aad = some payload :=
      hcorrect _ _ _ _ _ henc
    exact ⟨rfl, seq, payload, RealtimeCrypto.open_genuine hdec haccept, hdecodes ev payload hpayload⟩

theorem openPacket_cases (hcorrect : x.aead.Correct) (hdecodes : x.Decodes) (h : Wired x key epoch t) {place : ℕ}
    {ev : InputEvent} {packet : Bytes} (hget : t.input.out[place]? = some (.udp ev packet)) (hidle : t.decoded = none) :
    ∃ inbound decoded,
      t.openPacket place ev packet = { t with
        core := { t.core with inboundRt := inbound }
        decoded := decoded
        delivered := t.delivered ++ (mark ev.position? place).toList } ∧
      (∀ rt ∈ inbound, ∃ replay, rt = { RealtimeCrypto.new key epoch false with replay := replay }) ∧
      ((t.Refuses packet ∧ decoded = none) ∨ (¬ t.Refuses packet ∧ decoded = some (ev, place))) := by
  unfold openPacket Refuses
  dsimp only
  cases hin : t.core.inboundRt with
  | none =>
    have hcore : ({ t.core with inboundRt := none } : AppCore x) = t.core := by rw [← hin]
    exact ⟨none, none, by rw [hcore, ← hidle], nofun, Or.inl ⟨nofun, rfl⟩⟩
  | some rt =>
    obtain ⟨replay, rfl⟩ := h.inbound rt hin
    refine ⟨_, _, rfl, ?_, ?_⟩
    · rintro rt' ⟨⟩
      obtain ⟨replay', hfst⟩ := RealtimeCrypto.open_fst x
        { RealtimeCrypto.new key epoch false with replay := replay } packet
      exact ⟨replay', hfst⟩
    · rcases open_sound hcorrect hdecodes (h.loop.2 _ (List.mem_of_getElem? hget)) replay with
        ⟨hrefused, err, hres⟩ | ⟨haccepted, seq, pt, hres, hev⟩
      · left
        refine ⟨?_, by rw [hres]⟩
        rintro rt ⟨⟩
        exact hrefused
      · right
        refine ⟨fun hrefuses => ?_, by rw [hres]; simp [hev]⟩
        rw [hrefuses _ rfl] at haccepted
        cases haccepted

theorem arrive_cases (hcorrect : x.aead.Correct) (hdecodes : x.Decodes) (h : Wired x key epoch t) {place : ℕ}
    (hstep : step ar desktop t (.arrive place) = some u) :
    ∃ ev packet, t.input.out[place]? = some (.udp ev packet) ∧ t.decoded = none ∧ Wired x key epoch u ∧
      u.delivered = t.delivered ++ (mark ev.position? place).toList ∧ u.applied = t.applied ∧
      ((t.Refuses packet ∧ u.decoded = none) ∨ (¬ t.Refuses packet ∧ u.decoded = some (ev, place))) := by
  simp only [step] at hstep
  split at hstep
  case h_1 ev packet hget hidle =>
    obtain ⟨inbound, decoded, heq, hinbound, hcases⟩ := openPacket_cases hcorrect hdecodes h hget hidle
    rw [heq] at hstep
    obtain rfl := Option.some.inj hstep
    refine ⟨ev, packet, hget, hidle, ?_, rfl, rfl, hcases⟩
    refine ⟨h.loop, h.stream, h.role, h.sameKey, h.started, hinbound, fun ev' place' hdecoded => ?_, h.cursor⟩
    rcases hcases with ⟨-, hnone⟩ | ⟨-, hsome⟩
    · rw [hnone] at hdecoded
      cases hdecoded
    · obtain ⟨rfl, rfl⟩ := Prod.mk.inj (Option.some.inj (hsome.symm.trans hdecoded))
      exact ⟨packet, hget⟩
  case h_2 => cases hstep

theorem wired_inject (h : Wired x key epoch t) (hstep : step ar desktop t .inject = some u) : Wired x key epoch u := by
  simp only [step] at hstep
  split at hstep
  case h_1 => cases hstep
  case h_2 ev place hdecoded =>
    obtain rfl := Option.some.inj hstep
    refine ⟨h.loop, h.stream, h.role, h.sameKey, h.started, h.inbound, nofun, ?_⟩
    obtain ⟨packet, hget⟩ := h.decoded ev place hdecoded
    have hat : t.positionAt place = ev.position? := by
      rw [positionAt, hget]
      rfl
    have hmark : (mark ev.position? place).toList.map t.positionAt = ev.position?.toList.map some := by
      cases hpos : ev.position? <;> simp [mark, hat, hpos]
    show (t.applied ++ _).map t.positionAt =
      ((t.core.injector ++ (some (InjectorCall.inject ev)).toList).filterMap _).map some
    rw [List.filterMap_append, toList_filterMap, List.map_append, List.map_append, h.cursor, hmark]
    rfl

theorem wired_step (hcorrect : x.aead.Correct) (hdecodes : x.Decodes) (h : Wired x key epoch t) {e : SteeringEvent}
    (hstep : step ar desktop t e = some u) : Wired x key epoch u := by
  cases e with
  | loop tick => exact wired_loop h tick hstep
  | send msg => exact wired_send h msg hstep
  | read => exact wired_read h hstep
  | session event => exact wired_other h hstep
  | arrive place =>
    obtain ⟨-, -, -, -, hwired, -⟩ := arrive_cases hcorrect hdecodes h hstep
    exact hwired
  | inject => exact wired_inject h hstep

/-! ### The register -/

/-- The positions, as the messages that write a register. -/
def history (t : Steering x) : History ℕ := ⟨t.delivered, t.pending, t.applied⟩

/-- What a step does to the register: nothing, or one operation, which overtakes when the step does. -/
def Tracks (t : Steering x) (e : SteeringEvent) (u : Steering x) : Prop :=
  (u.history = t.history ∧ ¬ Overtakes t e) ∨
    ∃ op, t.history.step op = some u.history ∧ (Overtakes t e ↔ t.history.Overtaken op)

theorem tracks_read (h : Wired x key epoch t) (hstep : step ar desktop t .read = some u) : Tracks t .read u := by
  simp only [step] at hstep
  split at hstep
  case h_1 => cases hstep
  case h_2 msg place rest hstream =>
    obtain ⟨p, -, rfl⟩ := Option.map_eq_some_iff.mp hstep
    obtain ⟨-, hposition, -⟩ := h.stream (msg, place) (by simp [hstream])
    cases hpos : msg.position? with
    | none =>
      left
      have hentered : (place.bind (mark none)).toList = [] := by
        cases place <;> rfl
      refine ⟨?_, ?_⟩
      · simp only [history, pending, hentered, List.append_nil]
      · rintro ⟨px, py, place', rest', hstream', -⟩
        obtain ⟨hentry, -⟩ := List.cons.inj (hstream.symm.trans hstream')
        obtain ⟨rfl, -⟩ := Prod.mk.inj hentry
        cases hpos
    | some position =>
      right
      obtain ⟨px, py, rfl⟩ := ControlMsg.eq_of_position hpos
      cases place with
      | none =>
        rw [hposition rfl] at hpos
        cases hpos
      | some i =>
        refine ⟨.write i, rfl, ?_⟩
        constructor
        · rintro ⟨px', py', place', rest', hstream', hnewer⟩
          obtain ⟨hentry, -⟩ := List.cons.inj (hstream.symm.trans hstream')
          obtain rfl := Option.some.inj (Prod.mk.inj hentry).2
          exact hnewer
        · intro hnewer
          exact ⟨px, py, i, rest, hstream, hnewer⟩

theorem tracks_arrive (hcorrect : x.aead.Correct) (hdecodes : x.Decodes) (h : Wired x key epoch t) {place : ℕ}
    (hstep : step ar desktop t (.arrive place) = some u) : Tracks t (.arrive place) u := by
  obtain ⟨ev, packet, hget, hidle, -, hdelivered, happlied, hcases⟩ := arrive_cases hcorrect hdecodes h hstep
  have hheld : t.pending = none := by rw [pending, hidle, Option.bind_none]
  have hsame : ∀ {px py : F32} {packet' : Bytes},
      t.input.out[place]? = some (.udp (.mouseMoveAbs px py) packet') →
        ev = .mouseMoveAbs px py ∧ packet' = packet := by
    intro px py packet' hget'
    cases hget.symm.trans hget'
    exact ⟨rfl, rfl⟩
  cases hpos : ev.position? with
  | none =>
    left
    constructor
    · have hpending : u.pending = none := by
        rcases hcases with ⟨-, hnone⟩ | ⟨-, hsome⟩
        · rw [pending, hnone, Option.bind_none]
        · rw [pending, hsome, Option.bind_some, hpos]
          rfl
      rw [history, history, hdelivered, happlied, hpending, hheld, hpos]
      simp [mark]
    · rintro ⟨⟨px, py, packet', hget', -⟩, -⟩
      rw [(hsame hget').1] at hpos
      cases hpos
  | some position =>
    right
    obtain ⟨px, py, rfl⟩ := InputEvent.eq_of_position hpos
    rcases hcases with ⟨hrefused, hnone⟩ | ⟨haccepted, hsome⟩
    · refine ⟨.refuse place, ?_, ?_⟩
      · rw [history, history, hheld, hdelivered, happlied, pending, hnone]
        rfl
      · constructor
        · rintro ⟨-, hnewest⟩
          exact hnewest
        · intro hnewest
          exact ⟨⟨px, py, packet, hget, hrefused⟩, hnewest⟩
    · refine ⟨.hold place, ?_, ?_⟩
      · rw [history, history, hheld, hdelivered, happlied, pending, hsome]
        rfl
      · refine iff_of_false ?_ id
        rintro ⟨⟨px', py', packet', hget', hrefused⟩, -⟩
        rw [(hsame hget').2] at hrefused
        exact haccepted hrefused

theorem tracks_inject (hstep : step ar desktop t .inject = some u) : Tracks t .inject u := by
  simp only [step] at hstep
  split at hstep
  case h_1 => cases hstep
  case h_2 ev place hdecoded =>
    obtain rfl := Option.some.inj hstep
    have hpending : t.pending = mark ev.position? place := by
      rw [pending, hdecoded]
      rfl
    cases hpos : ev.position? with
    | none =>
      left
      constructor
      · rw [history, history, hpending]
        simp [mark, hpos, pending]
      · rintro ⟨px, py, place', hdecoded', -⟩
        obtain ⟨rfl, -⟩ := Prod.mk.inj (Option.some.inj (hdecoded.symm.trans hdecoded'))
        cases hpos
    | some position =>
      right
      obtain ⟨px, py, rfl⟩ := InputEvent.eq_of_position hpos
      refine ⟨.release, ?_, ?_⟩
      · rw [history, hpending]
        rfl
      · constructor
        · rintro ⟨px', py', place', hdecoded', hnewer⟩
          obtain ⟨-, rfl⟩ := Prod.mk.inj (Option.some.inj (hdecoded.symm.trans hdecoded'))
          exact ⟨place, hpending, hnewer⟩
        · rintro ⟨place', hplace', hnewer⟩
          obtain rfl : place = place' := Option.some.inj (hpending.symm.trans hplace')
          exact ⟨px, py, place, hdecoded, hnewer⟩

/-- The system refines the register. -/
theorem history_step (hcorrect : x.aead.Correct) (hdecodes : x.Decodes) (h : Wired x key epoch t) {e : SteeringEvent}
    (hstep : step ar desktop t e = some u) : Tracks t e u := by
  cases e with
  | loop tick =>
    obtain rfl := Option.some.inj hstep
    exact Or.inl ⟨rfl, id⟩
  | send msg =>
    simp only [step] at hstep
    split_ifs at hstep
    obtain rfl := Option.some.inj hstep
    exact Or.inl ⟨rfl, id⟩
  | read => exact tracks_read h hstep
  | session event =>
    obtain ⟨p, -, -, rfl⟩ := session_step hstep
    exact Or.inl ⟨rfl, id⟩
  | arrive place => exact tracks_arrive hcorrect hdecodes h hstep
  | inject => exact tracks_inject hstep

theorem latestWins_iff (h : Wired x key epoch t) : t.LatestWins ↔ t.history.Latest :=
  ⟨fun hwins => ⟨hwins.inOrder, hwins.newest⟩, fun hlatest => ⟨h.cursor, hlatest.inOrder, hlatest.newest⟩⟩

theorem wired_initial (core : AppCore x) (ready : Ready) (edge : ScreenEdge) (port : BitVec 16) (epoch : BitVec 64) :
    Wired x ready.session.key epoch (initial core ready edge port epoch) := by
  refine ⟨⟨⟨rfl, rfl, rfl⟩, nofun⟩, fun entry hentry => ?_, ready.controlled, rfl, ?_, nofun, nofun, rfl⟩
  · simp only [initial, List.mem_cons, List.not_mem_nil, or_false] at hentry
    rcases hentry with rfl | rfl
    · exact ⟨nofun, fun _ => rfl, nofun⟩
    · refine ⟨nofun, fun _ => rfl, ?_⟩
      rintro port' other ⟨⟩
      rfl
  · show ready.session.phase.started = true
    rw [ready.running]
    rfl

/-- In every run of the controller, and every order in which its datagrams and control messages are delivered: the
latest position sent wins in every state reached, iff no position is applied after a newer one, and no datagram with
the newest position delivered so far is refused. -/
theorem latest_position_iff (hcorrect : x.aead.Correct) (hdecodes : x.Decodes) (ar : Arith) (desktop : Rect)
    (core : AppCore x) (ready : Ready) (edge : ScreenEdge) (port : BitVec 16) (epoch : BitVec 64)
    (es : List SteeringEvent) (t : Steering x)
    (hrun : run (step ar desktop) (initial core ready edge port epoch) es = some t) :
    (∀ front back u, es = front ++ back → run (step ar desktop) (initial core ready edge port epoch) front = some u →
        u.LatestWins) ↔
      ¬ Seen (step ar desktop) Overtakes (initial core ready edge port epoch) es := by
  have hwired := wired_initial core ready edge port epoch
  have hnew : (initial core ready edge port epoch).history.Latest := ⟨List.Pairwise.nil, fun _ => rfl⟩
  refine always_good_iff (A := fun t => Wired x ready.session.key epoch t ∧ t.history.Accounted)
    ((latestWins_iff hwired).mpr hnew) ⟨hwired, nofun, nofun, nofun⟩ ?_ hrun
  rintro t e u hwins ⟨hwired, hacc⟩ hstep
  have hwired' := wired_step hcorrect hdecodes hwired hstep
  rw [latestWins_iff hwired] at hwins
  rw [latestWins_iff hwired']
  rcases history_step hcorrect hdecodes hwired hstep with ⟨hsame, hnot⟩ | ⟨op, hop, hovertakes⟩
  · rw [hsame]
    exact ⟨iff_of_true hwins hnot, fun _ => ⟨hwired', hacc⟩⟩
  · obtain ⟨hiff, hacc'⟩ := History.latest_step_iff hwins hacc hop
    rw [hovertakes]
    exact ⟨hiff, fun hlatest => ⟨hwired', hacc' hlatest⟩⟩

end Steering

/-! ### Two moves that change places -/

/-- ChaCha20-Poly1305 under the key `7, 7, …` and the associated data of epoch 1, on the initiator's first two packets
when they are moves to `(1/4, 0)` and `(1/2, 0)`. -/
def movesAead : Aead where
  encrypt key nonce msg aad :=
    if key = Vector.replicate 32 7 ∧ aad = beBytes 1 then
      if nonce = RealtimeCrypto.nonce SALT_INITIATOR 0 ∧ msg = [1, 0, 0, 128, 62, 0, 0, 0, 0] then
        some [111, 211, 83, 153, 34, 239, 29, 14, 113, 231, 44, 24, 22, 129, 199, 183, 156, 123, 71, 151, 233, 66, 66,
          165, 127]
      else if nonce = RealtimeCrypto.nonce SALT_INITIATOR 1 ∧ msg = [1, 0, 0, 0, 63, 0, 0, 0, 0] then
        some [8, 146, 246, 136, 243, 116, 108, 34, 105, 49, 70, 96, 10, 111, 118, 166, 72, 3, 109, 232, 8, 138, 180,
          196, 163]
      else none
    else none
  decrypt key nonce ct aad :=
    if key = Vector.replicate 32 7 ∧ aad = beBytes 1 then
      if nonce = RealtimeCrypto.nonce SALT_INITIATOR 0 ∧ ct = [111, 211, 83, 153, 34, 239, 29, 14, 113, 231, 44, 24,
          22, 129, 199, 183, 156, 123, 71, 151, 233, 66, 66, 165, 127] then some [1, 0, 0, 128, 62, 0, 0, 0, 0]
      else if nonce = RealtimeCrypto.nonce SALT_INITIATOR 1 ∧ ct = [8, 146, 246, 136, 243, 116, 108, 34, 105, 49, 70,
          96, 10, 111, 118, 166, 72, 3, 109, 232, 8, 138, 180, 196, 163] then some [1, 0, 0, 0, 63, 0, 0, 0, 0]
      else none
    else none
  error := "aead::Error"

theorem movesAead_correct : movesAead.Correct := by
  intro key nonce msg aad ct henc
  simp only [movesAead] at henc ⊢
  split_ifs at henc with hcontext hfirst hsecond
  · obtain ⟨rfl, rfl⟩ := hfirst
    obtain rfl := Option.some.inj henc
    rw [if_pos hcontext, if_pos ⟨rfl, rfl⟩]
  · obtain ⟨rfl, rfl⟩ := hsecond
    obtain rfl := Option.some.inj henc
    have hother : ¬ RealtimeCrypto.nonce SALT_INITIATOR 1 = RealtimeCrypto.nonce SALT_INITIATOR 0 := by decide
    rw [if_pos hcontext, if_neg fun h => hother h.1, if_pos ⟨rfl, rfl⟩]

def movesCrates : Crates where
  sha256 bytes := (demoDigests.lookup bytes).getD (Vector.replicate 32 0)
  aead := movesAead
  encodeInput ev :=
    if ev = .mouseMoveAbs (1 / 4) 0 then some [1, 0, 0, 128, 62, 0, 0, 0, 0]
    else if ev = .mouseMoveAbs (1 / 2) 0 then some [1, 0, 0, 0, 63, 0, 0, 0, 0]
    else none
  decodeInput bytes :=
    if bytes = [1, 0, 0, 128, 62, 0, 0, 0, 0] then some (.mouseMoveAbs (1 / 4) 0)
    else if bytes = [1, 0, 0, 0, 63, 0, 0, 0, 0] then some (.mouseMoveAbs (1 / 2) 0)
    else none
  encodeChunk _ := none
  debugMsg _ := ""

theorem movesCrates_decodes : movesCrates.Decodes := by
  intro ev payload hpayload
  simp only [movesCrates] at hpayload ⊢
  split_ifs at hpayload with hfirst hsecond
  · rw [← Option.some.inj hpayload, hfirst]
    rfl
  · rw [← Option.some.inj hpayload, hsecond]
    rfl

/-- Bob's session with Alice, in its main loop. -/
def movesReady : Ready where
  session := { Session.new .controlled (.v4 0x0A000003) (Vector.replicate 32 7) certAlice with
    phase := .running (demoCore certAlice "alice" []).deviceInfo
    slot := some fpAlice
    clip := true }
  info := (demoCore certAlice "alice" []).deviceInfo
  running := rfl
  controlled := rfl

def movesStart : Steering movesCrates :=
  .initial ((demoCore certBob "bob" [fpAlice]).over movesCrates) movesReady .right 7078 1

/-- The cursor crosses and moves to `(1/4, 0)` and on to `(1/2, 0)`. Bob reads all that is in the stream, and the second
move arrives before the first. -/
def movesSwapped : List SteeringEvent :=
  [.loop ⟨.right, false, some (.move 5 0 1023 0), .right⟩, .loop ⟨.right, false, some (.move 256 0 1023 0), .right⟩,
    .loop ⟨.right, false, some (.move 256 0 1023 0), .right⟩, .read, .read, .read, .arrive 5, .inject, .arrive 4,
    .inject]

theorem run_movesSwapped :
    ∃ t, run (Steering.step .exact ⟨0, 0, 1024, 1024⟩) movesStart movesSwapped = some t ∧ t.stream = [] ∧
      t.decoded = none ∧ t.core.injector.filterMap InjectorCall.position? = [(0, 0), (1 / 2, 0), (1 / 4, 0)] ∧
      t.applied = [2, 5, 4] :=
  exists_run (by decide +kernel)

/-- The older move wins, with everything handled. -/
theorem older_move_wins :
    ∃ t, run (Steering.step .exact ⟨0, 0, 1024, 1024⟩) movesStart movesSwapped = some t ∧ t.stream = [] ∧
      t.decoded = none ∧ t.core.injector.filterMap InjectorCall.position? = [(0, 0), (1 / 2, 0), (1 / 4, 0)] ∧
      ¬ t.LatestWins := by
  obtain ⟨t, ht, hstream, hdecoded, hcursor, happlied⟩ := run_movesSwapped
  refine ⟨t, ht, hstream, hdecoded, hcursor, fun hwins => ?_⟩
  have horder := hwins.inOrder
  rw [happlied] at horder
  exact absurd horder (by decide)

theorem latest_position_iff_swapped :
    Seen (Steering.step .exact ⟨0, 0, 1024, 1024⟩) Steering.Overtakes movesStart movesSwapped := by
  obtain ⟨t, ht, -, -, -, happlied⟩ := run_movesSwapped
  by_contra hnone
  have hwins := (Steering.latest_position_iff movesAead_correct movesCrates_decodes .exact _ _ movesReady .right 7078 1
    movesSwapped t ht).mpr hnone movesSwapped [] t (List.append_nil _).symm ht
  have horder := hwins.inOrder
  rw [happlied] at horder
  exact absurd horder (by decide)

end ScreenLink
