import ScreenLink.Lib.Machine
import ScreenLink.Session.Moves
import ScreenLink.Video.Reassembler

/-!
# Viewing a peer's screen

`spawn_receiver` of `mirror.rs`: a thread binds the video port, receives and decodes until its stop flag is set, and
frees the port when it exits. A session starts one for each `StartMirror`, after setting the stop flag of the one
before, and does not wait for it. `Viewing.step` interleaves a session with its receiver threads.
-/

namespace ScreenLink

/-- What the receiver uses of `postcard` and of the `image` crate. -/
structure VideoCrates where
  /-- `postcard::from_bytes::<VideoChunk>` -/
  decodeChunk : Bytes → Option VideoChunk
  /-- The RGBA image in a JPEG file. -/
  loadJpeg : Bytes → Option RgbaFrame

/-- A captured or decoded frame. -/
structure VideoFrame where
  width : BitVec 32
  height : BitVec 32
  stride : BitVec 32
  bgra : Bytes

/-- `px.swap(0, 2)` for every whole pixel. -/
def swapChannels : Bytes → Bytes
  | c₀ :: c₁ :: c₂ :: c₃ :: rest => c₂ :: c₁ :: c₀ :: c₃ :: swapChannels rest
  | rest => rest

/-- `JpegDecoder::decode` -/
def JpegDecoder.decode (y : VideoCrates) (data : Bytes) : Option VideoFrame :=
  (y.loadJpeg data).map fun img => ⟨img.width, img.height, img.width * 4, swapChannels img.rgba⟩

inductive ReceiverStage
  /-- The port is not bound yet. -/
  | spawned
  /-- At the loop head, with the port. -/
  | looping
  /-- In `recv_from`, with the port. -/
  | receiving
  /-- Binding the port has failed, and the thread has exited. -/
  | noPort
  /-- The thread has left the loop and freed the port. -/
  | exited
  deriving DecidableEq

def ReceiverStage.hasPort : ReceiverStage → Bool
  | .looping | .receiving => true
  | _ => false

/-- A receiver thread, besides its channel and its stop flag. -/
structure ReceiverThread where
  stage : ReceiverStage
  re : Reassembler
  deriving DecidableEq

/-- A session with its receiver threads. -/
structure Viewing (x : Crates) where
  core : AppCore x
  session : Session
  /-- The threads of `session.receivers`. -/
  threads : List ReceiverThread
  /-- History: the epoch of the last `StartMirror`, if no `StopMirror` has been processed since. -/
  asked : Option (BitVec 64)

inductive ViewingEvent
  /-- A step of the session. -/
  | session (event : SessionEvent)
  /-- Thread `i` binds the port. -/
  | bind (i : ℕ)
  /-- Thread `i` reads its stop flag. -/
  | head (i : ℕ)
  /-- `recv_from` of thread `i` returns, with a packet or without. -/
  | received (i : ℕ) (packet : Option Bytes)
  deriving DecidableEq

namespace Viewing

open Machine

variable {x : Crates}

def initial (core : AppCore x) (role : Role) (ip : IpAddr) (key : SessionKey) (cert : Bytes) : Viewing x where
  core := core
  session := .new role ip key cert
  threads := []
  asked := none

def setThread (t : Viewing x) (i : ℕ) (th : ReceiverThread) : Viewing x := { t with threads := t.threads.set i th }

/-- Some thread holds the video port. -/
def portTaken (t : Viewing x) : Bool := t.threads.any fun th => th.stage.hasPort

/-- Open a packet, push its chunk, and show the frame if one is complete. -/
def receive (y : VideoCrates) (t : Viewing x) (i : ℕ) (th : ReceiverThread) (r : MirrorReceiver) (packet : Bytes) :
    Viewing x :=
  let (rt, res) := r.rt.open x packet
  let t := { t with session := { t.session with receivers := t.session.receivers.set i { r with rt := rt } } }
  match res with
  | .error _ => t.setThread i { th with stage := .looping }
  | .ok (_, pt) => match y.decodeChunk pt with
    | none => t.setThread i { th with stage := .looping }
    | some chunk => match th.re.push chunk with
      -- a panic ends the thread
      | none => t.setThread i { th with stage := .exited }
      | some (re, out) =>
        let t := t.setThread i ⟨.looping, re⟩
        match out.bind fun frame => JpegDecoder.decode y frame.2 with
        | none => t
        | some frame => { t with
            core := { t.core with videoFrame := some ⟨frame.width, frame.height, swapChannels frame.bgra⟩ } }

/-- What the peer asks for, after the event. -/
def askedAfter (s : Session) (event : SessionEvent) (asked : Option (BitVec 64)) : Option (BitVec 64) :=
  match event, s.phase with
  | .recv (.startMirror epoch), .running _ => some epoch
  | .recv .stopMirror, .running _ => none
  | _, _ => asked

/-- The result of a step of the session; every new receiver has its thread. -/
def afterSession (t : Viewing x) (event : SessionEvent) (p : AppCore x × Session) : Viewing x where
  core := p.1
  session := p.2
  threads := t.threads ++ List.replicate (p.2.receivers.length - t.session.receivers.length) ⟨.spawned, {}⟩
  asked := askedAfter t.session event t.asked

/-- One step; `none` if the event cannot happen now. -/
def step (ar : Arith) (y : VideoCrates) (t : Viewing x) (e : ViewingEvent) : Option (Viewing x) :=
  match e with
  | .session event => (t.session.step ar t.core event).map (t.afterSession event)
  | .bind i => match t.threads[i]? with
    | some ⟨.spawned, re⟩ => some (t.setThread i ⟨if t.portTaken then .noPort else .looping, re⟩)
    | _ => none
  | .head i => match t.threads[i]?, t.session.receivers[i]? with
    | some ⟨.looping, re⟩, some r =>
      if r.stop then some { t.setThread i ⟨.exited, re⟩ with core := { t.core with videoFrame := none } }
      else some (t.setThread i ⟨.receiving, re⟩)
    | _, _ => none
  | .received i packet => match t.threads[i]?, t.session.receivers[i]? with
    | some ⟨.receiving, re⟩, some r => match packet with
      | none => some (t.setThread i ⟨.looping, re⟩)
      | some packet => some (t.receive y i ⟨.receiving, re⟩ r packet)
    | _, _ => none

/-- The thread started last. -/
def newest (t : Viewing x) : ℕ := t.threads.length - 1

/-- If the peer's last word was to start, the thread started for it has bound the port or will still bind it. -/
def Serves (t : Viewing x) : Prop :=
  ∀ epoch, t.asked = some epoch → ∃ r th, t.session.receivers[t.newest]? = some r ∧ r.rt.aad = beBytes epoch ∧
    t.threads[t.newest]? = some th ∧ th.stage ≠ .noPort

/-- The newest thread binds the port while another one, which has been told to stop, still holds it. -/
def PortHeld (t : Viewing x) : ViewingEvent → Prop
  | .bind i => i = t.newest ∧ t.asked.isSome ∧ (∃ th ∈ t.threads[i]?, th.stage = .spawned) ∧
      ∃ p ∈ t.threads.zip t.session.receivers, p.1.stage.hasPort = true ∧ p.2.stop = true
  | _ => False

instance (t : Viewing x) (e : ViewingEvent) : Decidable (t.PortHeld e) :=
  match e with
  | .bind _ => inferInstanceAs (Decidable (_ ∧ _ ∧ _ ∧ _))
  | .session _ | .head _ | .received .. => inferInstanceAs (Decidable False)

end Viewing

namespace Session

variable {x : Crates} {ar : Arith} {core : AppCore x} {s : Session} {event : SessionEvent} {p : AppCore x × Session}

/-! ### What a step does to the receivers -/

/-- The receivers, with the stop flag of the one whose handle is kept. -/
def halted (s : Session) : List MirrorReceiver := s.takeReceiver.receivers

/-- How one step changes the receivers: not at all, by stopping the one in use, or by starting another. -/
inductive ReceiversMove (x : Crates) (s : Session) (event : SessionEvent) (s' : Session) : Prop
  | same (h : s'.receivers = s.receivers) (hkept : s'.mirrorRx = s.mirrorRx)
    (hnot : ∀ epoch info, event = .recv (.startMirror epoch) → s.phase ≠ .running info)
  | stopped (h : s'.receivers = s.halted) (hkept : s'.mirrorRx = none ∨ s'.mirrorRx = s.mirrorRx)
    (hnot : ∀ epoch, event ≠ .recv (.startMirror epoch))
  | started (epoch : BitVec 64) (info : DeviceInfo) (hevent : event = .recv (.startMirror epoch))
    (hs : s.phase = .running info) (h : s'.receivers = s.halted ++ [.spawn (s.videoKey x) epoch])
    (hkept : s'.mirrorRx = some s.receivers.length)

theorem length_halted (s : Session) : s.halted.length = s.receivers.length := by
  unfold halted takeReceiver
  split
  · simp [stopReceiver]
  · rfl

theorem getElem?_halted (s : Session) (i : ℕ) :
    s.halted[i]? = s.receivers[i]?.map fun r => if s.mirrorRx = some i then r.halt else r := by
  unfold halted takeReceiver
  split
  · rename_i j hj
    by_cases h : j = i
    · simp [stopReceiver, hj, h]
    · simp [stopReceiver, hj, h]
  · rename_i hnone
    simp [hnone]

theorem receivers_handleInbound (core : AppCore x) (s : Session) (info : DeviceInfo) (msg : ControlMsg) :
    (handleInbound core s info msg).2.1.receivers = s.receivers ∧
      (handleInbound core s info msg).2.1.mirrorRx = s.mirrorRx := by
  unfold handleInbound
  split
  case h_1 | h_2 | h_3 => split <;> exact ⟨rfl, rfl⟩
  case h_6 => split_ifs <;> exact ⟨rfl, rfl⟩
  all_goals exact ⟨rfl, rfl⟩

theorem receivers_runningRecv (core : AppCore x) (s : Session) (info : DeviceInfo) (msg : ControlMsg) :
    (runningRecv core s info msg).2.receivers = (mirrorInbound core s info msg).2.receivers ∧
      (runningRecv core s info msg).2.mirrorRx = (mirrorInbound core s info msg).2.mirrorRx := by
  obtain ⟨hreceivers, hkept⟩ := receivers_handleInbound (mirrorInbound core s info msg).1
    (mirrorInbound core s info msg).2 info msg
  unfold runningRecv
  dsimp only
  split <;> exact ⟨hreceivers, hkept⟩

theorem mirrorRx_takeReceiver (s : Session) : s.takeReceiver.mirrorRx = none := by
  unfold takeReceiver
  split
  · rfl
  · rename_i hnone
    exact hnone

theorem receivers_of_step (h : s.step ar core event = some p) : ReceiversMove x s event p.2 := by
  cases steps_of_step h with
  | runningRecv info msg hs =>
    obtain ⟨hreceivers, hkept⟩ := receivers_runningRecv core s info msg
    cases msg with
    | startMirror epoch =>
      have hkey : s.takeReceiver.videoKey x = s.videoKey x := by
        unfold takeReceiver
        split <;> rfl
      refine .started epoch info rfl hs ?_ (hkept.trans (congrArg some (length_halted s)))
      rw [hreceivers, ← hkey]
      rfl
    | stopMirror => exact .stopped hreceivers (Or.inl (hkept.trans (mirrorRx_takeReceiver s))) nofun
    | _ => exact .same hreceivers hkept nofun
  | teardown info result hs =>
    refine .stopped ?_ (Or.inr rfl) nofun
    unfold teardown stopThreads halted takeReceiver
    dsimp only
    cases s.mirrorRx <;> rfl
  | recvHello msg hs =>
    have hnot : ∀ epoch info, SessionEvent.recv msg = .recv (.startMirror epoch) → s.phase ≠ .running info := by
      rintro - info -
      rw [hs]
      nofun
    unfold recvHello
    split
    · split_ifs <;> exact .same rfl rfl hnot
    · exact .same rfl rfl hnot
  | checkTrust info hs =>
    unfold checkTrust
    split_ifs <;> exact .same rfl rfl nofun
  | pairingRecv info st msg hs =>
    have hnot : ∀ epoch i, SessionEvent.recv msg = .recv (.startMirror epoch) → s.phase ≠ .running i := by
      rintro - i -
      rw [hs]
      nofun
    cases msg <;> exact .same rfl rfl hnot
  | pairingCmd info st cmd epoch hs => cases cmd <;> exact .same rfl rfl nofun
  | store info err hs => cases err <;> exact .same rfl rfl nofun
  | wire info epoch desktop err hs =>
    unfold wire
    dsimp only
    split
    · exact .same rfl rfl nofun
    · split <;> exact .same rfl rfl nofun
  | runningCmd info cmd epoch hs =>
    cases cmd with
    | startMirror =>
      unfold runningCmd
      cases s.mirrorTx with
      | some i => exact .same rfl rfl nofun
      | none => cases s.writer <;> exact .same rfl rfl nofun
    | stopMirror =>
      unfold runningCmd
      cases s.mirrorTx <;> exact .same rfl rfl nofun
    | _ => exact .same rfl rfl nofun
  | tick info hs =>
    unfold tick
    dsimp only
    split_ifs <;> exact .same rfl rfl nofun
  | host t edge captured edgeNow hhost hlive =>
    obtain ⟨events, out, heq⟩ := hostStep_eq ar core s t edge captured edgeNow
    rw [heq]
    exact .same rfl rfl nofun
  | _ => exact .same rfl rfl nofun

end Session

namespace Viewing

open Machine Session

variable {x : Crates} {ar : Arith} {y : VideoCrates} {t u : Viewing x} {e : ViewingEvent}

/-- What matters of the receivers: their stop flags and epochs. -/
def marks (t : Viewing x) : List (Bool × Bytes) := t.session.receivers.map fun r => (r.stop, r.rt.aad)

/-- A thread with the port goes on, with the port or out of the loop. -/
structure Goes (t u : Viewing x) : Prop where
  thread : ∃ i th th', t.threads[i]? = some th ∧ u.threads = t.threads.set i th' ∧ th.stage.hasPort = true ∧
    th'.stage ≠ .noPort
  marks : u.marks = t.marks
  kept : u.session.mirrorRx = t.session.mirrorRx
  asked : u.asked = t.asked

theorem goes_setThread {i : ℕ} {th th' : ReceiverThread} (hi : t.threads[i]? = some th) (hport : th.stage.hasPort = true)
    (hstage : th'.stage ≠ .noPort) : t.Goes (t.setThread i th') :=
  ⟨⟨i, th, th', hi, rfl, hport, hstage⟩, rfl, rfl, rfl⟩

theorem receive_goes {i : ℕ} {re : Reassembler} {r : MirrorReceiver} (hi : t.threads[i]? = some ⟨.receiving, re⟩)
    (hr : t.session.receivers[i]? = some r) (packet : Bytes) : t.Goes (t.receive y i ⟨.receiving, re⟩ r packet) := by
  have hmarks : (t.session.receivers.set i { r with rt := (r.rt.open x packet).1 }).map (fun r => (r.stop, r.rt.aad)) =
      t.marks := by
    obtain ⟨replay, hopen⟩ := RealtimeCrypto.open_fst x r.rt packet
    obtain ⟨hlt, rfl⟩ := List.getElem?_eq_some_iff.mp hr
    rw [hopen, List.map_set]
    refine Eq.trans (congrArg _ ?_) (List.set_getElem_self (i := i) (by simpa using hlt))
    simp
  unfold receive
  dsimp only
  split
  · exact ⟨⟨i, _, _, hi, rfl, rfl, nofun⟩, hmarks, rfl, rfl⟩
  · split
    · exact ⟨⟨i, _, _, hi, rfl, rfl, nofun⟩, hmarks, rfl, rfl⟩
    · split
      · exact ⟨⟨i, _, _, hi, rfl, rfl, nofun⟩, hmarks, rfl, rfl⟩
      · split <;> exact ⟨⟨i, _, _, hi, rfl, rfl, nofun⟩, hmarks, rfl, rfl⟩

theorem step_cases (h : step ar y t e = some u) :
    (∃ event p, e = .session event ∧ t.session.step ar t.core event = some p ∧ u = t.afterSession event p) ∨
      (∃ i re, e = .bind i ∧ t.threads[i]? = some ⟨.spawned, re⟩ ∧
        u = t.setThread i ⟨if t.portTaken then .noPort else .looping, re⟩) ∨
      ((∀ i, e ≠ .bind i) ∧ t.Goes u) := by
  cases e with
  | session event =>
    obtain ⟨p, hp, rfl⟩ := Option.map_eq_some_iff.mp h
    exact Or.inl ⟨event, p, rfl, hp, rfl⟩
  | bind i =>
    simp only [step] at h
    split at h
    · rename_i re hi
      exact Or.inr (Or.inl ⟨i, re, rfl, hi, (Option.some.inj h).symm⟩)
    · cases h
  | head i =>
    simp only [step] at h
    split at h
    · rename_i re r hi hr
      refine Or.inr (Or.inr ⟨nofun, ?_⟩)
      split_ifs at h
      · cases h
        exact ⟨⟨i, _, _, hi, rfl, rfl, nofun⟩, rfl, rfl, rfl⟩
      · cases h
        exact goes_setThread hi rfl nofun
    · cases h
  | received i packet =>
    simp only [step] at h
    split at h
    · rename_i re r hi hr
      refine Or.inr (Or.inr ⟨nofun, ?_⟩)
      cases packet with
      | none =>
        cases h
        exact goes_setThread hi rfl nofun
      | some packet =>
        cases h
        exact receive_goes hi hr packet
    · cases h

/-- What is known throughout a run. -/
structure Inv (t : Viewing x) : Prop where
  length : t.threads.length = t.marks.length
  /-- The handle that is kept is the newest receiver's. -/
  kept : ∀ i, t.session.mirrorRx = some i → i + 1 = t.marks.length
  /-- Every other receiver has been told to stop. -/
  stopped : ∀ i m, t.marks[i]? = some m → m.1 = true ∨ t.session.mirrorRx = some i
  asked : ∀ epoch, t.asked = some epoch → ∃ m, t.marks[t.newest]? = some m ∧ m.2 = beBytes epoch

/-- A step that starts no receiver: it may stop the one in use, and forget what was asked. -/
structure Keeps (t u : Viewing x) : Prop where
  threads : u.threads.length = t.threads.length
  length : u.marks.length = t.marks.length
  kept : ∀ i, u.session.mirrorRx = some i → t.session.mirrorRx = some i
  /-- A receiver keeps its epoch, and one that has been told to stop, or whose handle is given up, is stopped. -/
  marks : ∀ i m', u.marks[i]? = some m' → ∃ m, t.marks[i]? = some m ∧ m'.2 = m.2 ∧
    (m.1 = true ∨ t.session.mirrorRx = some i → m'.1 = true ∨ u.session.mirrorRx = some i)
  asked : u.asked = t.asked ∨ u.asked = none

theorem Keeps.inv (h : t.Keeps u) (hinv : t.Inv) : u.Inv where
  length := h.threads.trans (hinv.length.trans h.length.symm)
  kept i hi := (hinv.kept i (h.kept i hi)).trans h.length.symm
  stopped i m' hm' := by
    obtain ⟨m, hm, -, hstop⟩ := h.marks i m' hm'
    exact hstop (hinv.stopped i m hm)
  asked epoch hepoch := by
    rcases h.asked with hsame | hnone
    · obtain ⟨m, hm, hepoch⟩ := hinv.asked epoch (hsame ▸ hepoch)
      have hnewest : u.newest = t.newest := congrArg (· - 1) h.threads
      have hlt : t.newest < u.marks.length := h.length ▸ (List.getElem?_eq_some_iff.mp hm).1
      obtain ⟨m₁, hm₁, hsame, -⟩ := h.marks t.newest _ (List.getElem?_eq_getElem hlt)
      obtain rfl : m = m₁ := Option.some.inj (hm.symm.trans hm₁)
      exact ⟨_, (congrArg (u.marks[·]?) hnewest).trans (List.getElem?_eq_getElem hlt), hsame.trans hepoch⟩
    · rw [hnone] at hepoch
      cases hepoch

theorem keeps_of_marks (hthreads : u.threads.length = t.threads.length) (hmarks : u.marks = t.marks)
    (hkept : u.session.mirrorRx = t.session.mirrorRx) (hasked : u.asked = t.asked ∨ u.asked = none) : t.Keeps u where
  threads := hthreads
  length := congrArg List.length hmarks
  kept _ hi := hkept ▸ hi
  marks _ m' hm' := ⟨m', hmarks ▸ hm', rfl, fun h => hkept ▸ h⟩
  asked := hasked

theorem Goes.keeps (h : t.Goes u) : t.Keeps u := by
  obtain ⟨i, th, th', -, hset, -⟩ := h.thread
  exact keeps_of_marks (by rw [hset, List.length_set]) h.marks h.kept (Or.inl h.asked)

theorem askedAfter_eq_or {s : Session} {event : SessionEvent} {asked : Option (BitVec 64)}
    (hnot : ∀ epoch info, event = .recv (.startMirror epoch) → s.phase ≠ .running info) :
    askedAfter s event asked = asked ∨ askedAfter s event asked = none := by
  unfold askedAfter
  split
  · rename_i epoch info hs
    exact absurd hs (hnot epoch info rfl)
  · exact Or.inr rfl
  · exact Or.inl rfl

theorem keeps_halted {event : SessionEvent} {p : AppCore x × Session} (h : p.2.receivers = t.session.halted)
    (hkept : p.2.mirrorRx = none ∨ p.2.mirrorRx = t.session.mirrorRx)
    (hnot : ∀ epoch, event ≠ .recv (.startMirror epoch)) : t.Keeps (t.afterSession event p) where
  threads := by simp [afterSession, h, length_halted]
  length := by simp [marks, afterSession, h, length_halted]
  kept i hi := by
    rcases hkept with hnone | hsame
    · cases hnone.symm.trans hi
    · exact hsame ▸ hi
  marks i m' hm' := by
    simp only [marks, afterSession, List.getElem?_map, h, getElem?_halted, Option.map_map] at hm' ⊢
    obtain ⟨r, hr, rfl⟩ := Option.map_eq_some_iff.mp hm'
    refine ⟨(r.stop, r.rt.aad), by simp [hr], ?_, fun hstop => Or.inl ?_⟩
    · dsimp only [Function.comp_apply]
      split_ifs <;> rfl
    · dsimp only [Function.comp_apply]
      split_ifs with hi
      · rfl
      · exact hstop.resolve_right hi
  asked := askedAfter_eq_or fun epoch info heq => absurd heq (hnot epoch)

theorem marks_afterSession {event : SessionEvent} {p : AppCore x × Session} :
    (t.afterSession event p).marks = p.2.receivers.map fun r => (r.stop, r.rt.aad) := rfl

theorem afterSession_cases {event : SessionEvent} {p : AppCore x × Session}
    (hp : t.session.step ar t.core event = some p) :
    (t.Keeps (t.afterSession event p) ∧ (t.afterSession event p).threads = t.threads) ∨
      ∃ epoch, (t.afterSession event p).threads = t.threads ++ [⟨.spawned, {}⟩] ∧
        (t.afterSession event p).marks = t.session.halted.map (fun r => (r.stop, r.rt.aad)) ++ [(false, beBytes epoch)] ∧
        (t.afterSession event p).session.mirrorRx = some t.marks.length ∧
        (t.afterSession event p).asked = some epoch := by
  cases receivers_of_step hp with
  | same h hkept hnot =>
    have hthreads : (t.afterSession event p).threads = t.threads := by simp [afterSession, h]
    refine Or.inl ⟨keeps_of_marks (congrArg List.length hthreads) ?_ hkept (askedAfter_eq_or hnot), hthreads⟩
    rw [marks_afterSession, h]
    rfl
  | stopped h hkept hnot => exact Or.inl ⟨keeps_halted h hkept hnot, by simp [afterSession, h, length_halted]⟩
  | started epoch info hevent hs h hkept =>
    refine Or.inr ⟨epoch, by simp [afterSession, h, length_halted], ?_, ?_,
      by simp [afterSession, askedAfter, hevent, hs]⟩
    · rw [marks_afterSession, h, List.map_append]
      rfl
    · exact hkept.trans (by rw [marks, List.length_map])

theorem step_inv (hinv : t.Inv) (h : step ar y t e = some u) : u.Inv := by
  rcases step_cases h with ⟨event, p, -, hp, rfl⟩ | ⟨i, re, -, hi, rfl⟩ | ⟨-, hgoes⟩
  · rcases afterSession_cases hp with ⟨hkeeps, -⟩ | ⟨epoch, hthreads, hmarks, hkept, hasked⟩
    · exact hkeeps.inv hinv
    · have hlen : t.session.halted.length = t.marks.length := by rw [length_halted, marks, List.length_map]
      have hnewest : (t.afterSession event p).newest = t.marks.length := by simp [newest, hthreads, hinv.length]
      refine ⟨?_, ?_, ?_, ?_⟩
      · simp [hthreads, hmarks, hlen, hinv.length]
      · rintro i hi
        cases hkept.symm.trans hi
        simp [hmarks, hlen]
      · intro i m hm
        rw [hmarks, List.getElem?_append, List.length_map, hlen] at hm
        rw [hkept]
        split_ifs at hm with hlt
        · rw [List.getElem?_map, getElem?_halted, Option.map_map] at hm
          obtain ⟨r, hr, rfl⟩ := Option.map_eq_some_iff.mp hm
          left
          dsimp only [Function.comp_apply]
          split_ifs with hi
          · rfl
          · exact (hinv.stopped i (r.stop, r.rt.aad) (by simp [marks, hr])).resolve_right hi
        · have hi : i = t.marks.length := by
            have := (List.getElem?_eq_some_iff.mp hm).1
            simp only [List.length_singleton] at this
            omega
          exact Or.inr (congrArg some hi.symm)
      · rintro epoch' hepoch
        cases hasked.symm.trans hepoch
        refine ⟨(false, beBytes epoch), ?_, rfl⟩
        rw [hnewest, hmarks, List.getElem?_append_right (by simp [hlen])]
        simp [hlen]
  · refine Keeps.inv ?_ hinv
    exact keeps_of_marks (by simp [setThread]) rfl rfl (Or.inl rfl)
  · exact hgoes.keeps.inv hinv

theorem initial_inv {core : AppCore x} {role : Role} {ip : IpAddr} {key : SessionKey} {cert : Bytes} :
    (initial core role ip key cert).Inv where
  length := rfl
  kept := nofun
  stopped := nofun
  asked := nofun

theorem serves_iff (hinv : t.Inv) :
    t.Serves ↔ (t.asked.isSome = true → ∀ th, t.threads[t.newest]? = some th → th.stage ≠ .noPort) := by
  constructor
  · intro h hasked th hth
    obtain ⟨epoch, hepoch⟩ := Option.isSome_iff_exists.mp hasked
    obtain ⟨r, th', -, -, hth', hstage⟩ := h epoch hepoch
    obtain rfl : th = th' := Option.some.inj (hth.symm.trans hth')
    exact hstage
  · intro h epoch hepoch
    obtain ⟨m, hm, hm2⟩ := hinv.asked epoch hepoch
    have hlt : t.newest < t.threads.length := hinv.length ▸ (List.getElem?_eq_some_iff.mp hm).1
    obtain ⟨r, hr, rfl⟩ := Option.map_eq_some_iff.mp ((List.getElem?_map).symm.trans hm)
    exact ⟨r, _, hr, hm2, List.getElem?_eq_getElem hlt, h (by simp [hepoch]) _ (List.getElem?_eq_getElem hlt)⟩

theorem portTaken_iff (hinv : t.Inv) {re : Reassembler} (hnewest : t.threads[t.newest]? = some ⟨.spawned, re⟩) :
    t.portTaken = true ↔ ∃ p ∈ t.threads.zip t.session.receivers, p.1.stage.hasPort = true ∧ p.2.stop = true := by
  constructor
  · intro h
    obtain ⟨th, hth, hport⟩ := List.any_eq_true.mp h
    obtain ⟨j, hj⟩ := List.getElem?_of_mem hth
    have hlen : t.threads.length = t.session.receivers.length := by rw [hinv.length, marks, List.length_map]
    have hlt := (List.getElem?_eq_some_iff.mp hj).1
    have hr : t.session.receivers[j]? = some t.session.receivers[j] := List.getElem?_eq_getElem (hlen ▸ hlt)
    refine ⟨(th, t.session.receivers[j]), List.mem_of_getElem? (List.getElem?_zip_eq_some.mpr ⟨hj, hr⟩), hport, ?_⟩
    refine (hinv.stopped j _ (by rw [marks, List.getElem?_map, hr]; rfl)).resolve_right fun hkept => ?_
    -- the handle that is kept belongs to the newest thread, and that has not bound the port
    have hj' : j = t.newest := by
      have := hinv.kept j hkept
      rw [newest, hinv.length]
      omega
    rw [hj', hnewest] at hj
    cases hj
    cases hport
  · rintro ⟨⟨th, r⟩, hmem, hport, -⟩
    exact List.any_eq_true.mpr ⟨th, (List.of_mem_zip hmem).1, hport⟩

theorem serves_step (hinv : t.Inv) (hserves : t.Serves) (h : step ar y t e = some u) : u.Serves ↔ ¬ t.PortHeld e := by
  rw [serves_iff hinv] at hserves
  rw [serves_iff (step_inv hinv h)]
  rcases step_cases h with ⟨event, p, rfl, hp, rfl⟩ | ⟨i, re, rfl, hi, rfl⟩ | ⟨hbind, hgoes⟩
  · refine iff_of_true ?_ id
    rcases afterSession_cases hp with ⟨hkeeps, hthreads⟩ | ⟨epoch, hthreads, -⟩
    · intro hasked th hth
      rw [newest, hthreads] at hth
      rcases hkeeps.asked with hsame | hnone
      · exact hserves (hsame ▸ hasked) th hth
      · rw [hnone] at hasked
        cases hasked
    · intro hasked th hth
      rw [newest, hthreads] at hth
      simp only [List.length_append, List.length_singleton, Nat.add_sub_cancel, List.getElem?_concat_length,
        Option.some.injEq] at hth
      rw [← hth]
      nofun
  · have hlt := (List.getElem?_eq_some_iff.mp hi).1
    have hnewest : (t.setThread i ⟨if t.portTaken then .noPort else .looping, re⟩).newest = t.newest := by
      simp [newest, setThread]
    rw [hnewest]
    by_cases hnew : i = t.newest
    · subst hnew
      have hport := portTaken_iff hinv hi
      simp only [setThread, List.getElem?_set_self hlt, Option.some.injEq, forall_eq', PortHeld, true_and, hi,
        Option.mem_def, exists_eq_left', ← hport]
      cases t.portTaken <;> simp
    · refine iff_of_true (fun hasked th hth => ?_) fun hheld => hnew hheld.1
      rw [setThread, List.getElem?_set_ne hnew] at hth
      exact hserves hasked th hth
  · refine iff_of_true (fun hasked th hth => ?_) ?_
    · obtain ⟨i, th₀, th', -, hset, -, hstage⟩ := hgoes.thread
      rw [newest, hset, List.length_set, List.getElem?_set] at hth
      split_ifs at hth with hi hlt
      · cases hth
        exact hstage
      · exact hserves (hgoes.asked ▸ hasked) th hth
    · cases e with
      | bind i => exact absurd rfl (hbind i)
      | _ => exact id

/-- In every run of a session and its receiver threads: whenever the peer's last word was to start, the thread started
for it has bound the video port or will still bind it, if and only if the newest thread never tries to bind the port
while another one, told to stop, still holds it. -/
theorem mirror_restart_iff {core : AppCore x} {role : Role} {ip : IpAddr} {key : SessionKey} {cert : Bytes}
    {es : List ViewingEvent} (hrun : run (step ar y) (initial core role ip key cert) es = some t) :
    (∀ front back u, es = front ++ back → run (step ar y) (initial core role ip key cert) front = some u →
      u.Serves) ↔ ¬ Seen (step ar y) PortHeld (initial core role ip key cert) es :=
  always_good_iff (A := Inv) nofun initial_inv
    (fun _ _ _ hserves hinv h => ⟨serves_step hinv hserves h, fun _ => step_inv hinv h⟩) hrun

/-! ### Two starts -/

/-- Alice, who trusts Bob, is asked to view its screen, and asked again when the first receiver is waiting for a
packet. -/
def startedTwice : List ViewingEvent :=
  [.session .sayHello, .session (.recv (.hello PROTOCOL_VERSION (demoCore certBob "bob" []).deviceInfo)),
    .session .setSlot, .session .checkTrust, .session (.wire 0 ⟨0, 0, 1920, 1080⟩ none),
    .session (.recv (.startMirror 5)), .bind 0, .head 0, .session (.recv (.startMirror 6))]

/-- No packet and no image is decoded. -/
def demoVideo : VideoCrates := ⟨fun _ => none, fun _ => none⟩

/-- The second receiver does not wait for the first, which still holds the port. -/
theorem restarted_without_port :
    ∃ t, run (step .exact demoVideo) (initial (demoCore certAlice "alice" [fpBob]) .controlled (.v4 0x0A000003) demoKey
        certBob) (startedTwice ++ [.bind 1]) = some t ∧ ¬ t.Serves := by
  refine ⟨_, rfl, fun h => ?_⟩
  obtain ⟨r, th, -, -, hth, hstage⟩ := h 6 rfl
  cases hth
  exact hstage rfl

/-- A second receiver that comes to bind the port after the first has left it. -/
theorem mirror_restart_iff_inTurn :
    ∃ t, run (step .exact demoVideo) (initial (demoCore certAlice "alice" [fpBob]) .controlled (.v4 0x0A000003) demoKey
        certBob) (startedTwice ++ [.received 0 none, .head 0, .bind 1]) = some t ∧ t.asked = some 6 ∧
      ∀ front back u, startedTwice ++ [.received 0 none, .head 0, .bind 1] = front ++ back →
        run (step .exact demoVideo) (initial (demoCore certAlice "alice" [fpBob]) .controlled (.v4 0x0A000003) demoKey
          certBob) front = some u → u.Serves := by
  exact ⟨_, rfl, rfl, (mirror_restart_iff rfl).mpr (by decide +kernel)⟩

end Viewing

end ScreenLink
