import ScreenLink.Pairing.Party

/-!
# The pairing loops as a handshake

The two ends of a connection between honest devices refine the two-sided confirmation of `Handshake`: every run of
`Link.step` is, message for message, a run of `Handshake.Step` (`run_refines`). The Hello exchange comes before it: an
end reads exactly one Hello, the other device's own (`HelloInv`), so the id it looks up and pairs with is the other's
fingerprint.
-/

namespace ScreenLink

open Handshake Machine

namespace Phase

/-- No message has been read. -/
def awaitsHello : Phase → Bool
  | .start | .hello => true
  | _ => false

theorem awaitsHello_of_moves {trusted : String → Bool} {p p' : Phase} {event : SessionEvent}
    (h : p.Moves trusted event p') (hp' : p'.awaitsHello = true) :
    p.awaitsHello = true ∧ ∀ msg, event ≠ .recv msg := by
  cases h with
  | sayHello => exact ⟨rfl, nofun⟩
  | thread p event hthread =>
    refine ⟨hp', ?_⟩
    rintro msg rfl
    cases hthread
  | remoteBegin info st | remoteConfirm info st | localConfirm info st epoch | otherCmd info st cmd epoch hcmd =>
    unfold Session.afterSelect at hp'
    split_ifs at hp' <;> cases hp'
  | _ => cases hp'

theorem greeted_of_moves {trusted : String → Bool} {p p' : Phase} {event : SessionEvent}
    (h : p.Moves trusted event p') (hp : p.awaitsHello = true) (hp' : p'.awaitsHello = false)
    (hover : p'.finished = false) : ∃ info, event = .recv (.hello PROTOCOL_VERSION info) := by
  cases h with
  | greeted info => exact ⟨info, rfl⟩
  | thread p event hthread => exact Bool.noConfusion (hp'.symm.trans hp)
  | startFailed | helloFailed | helloRefused => cases hover
  | sayHello => cases hp'
  | _ => cases hp

end Phase

namespace Session

variable {x : Crates} {ar : Arith} {core : AppCore x} {s : Session} {event : SessionEvent} {p : AppCore x × Session}

/-! ### The Hello -/

theorem said_of_step (hstep : s.step ar core event = some p) :
    (event = .sayHello ∧ s.phase = .start ∧ p.2.out = (s.send (.hello PROTOCOL_VERSION core.deviceInfo)).out) ∨
      (event = .writerDied ∧ p.2.out = []) ∨
      (event ≠ .sayHello ∧ ∃ msgs, p.2.out = s.out ++ msgs ∧ ∀ msg ∈ msgs, msg.abs ≠ none) := by
  have hsaid : ∀ {s' : Session} {ok : ControlMsg → Prop}, Says ok s s' → (∀ msg, ok msg → msg.abs ≠ none) →
      ∃ msgs, s'.out = s.out ++ msgs ∧ ∀ msg ∈ msgs, msg.abs ≠ none := by
    rintro s' ok ⟨msgs, hout, hok, -⟩ himp
    exact ⟨msgs, hout, fun msg hmsg => himp msg (hok msg hmsg)⟩
  have hdata : ∀ {s' : Session}, SaysData s s' → ∃ msgs, s'.out = s.out ++ msgs ∧ ∀ msg ∈ msgs, msg.abs ≠ none :=
    fun h => hsaid h fun msg hmsg => by rw [hmsg]; exact nofun
  have hsend : ∀ msg : ControlMsg, msg.abs ≠ none →
      ∃ msgs, (s.send msg).out = s.out ++ msgs ∧ ∀ msg ∈ msgs, msg.abs ≠ none :=
    fun msg hmsg => hsaid (says_send s hmsg : Says (·.abs ≠ none) s (s.send msg)) fun _ h => h
  have hnone : ∃ msgs, s.out = s.out ++ msgs ∧ ∀ msg ∈ msgs, msg.abs ≠ none := ⟨[], by simp, nofun⟩
  cases steps_of_step hstep with
  | sayHello hs => exact Or.inl ⟨rfl, hs, rfl⟩
  | writerDied hslot => exact Or.inr (Or.inl ⟨rfl, rfl⟩)
  | recvHello msg hs =>
    refine Or.inr (Or.inr ⟨nofun, ?_⟩)
    unfold recvHello
    split
    · split_ifs
      · exact hsend _ nofun
      · exact hnone
    · exact hnone
  | checkTrust info hs =>
    refine Or.inr (Or.inr ⟨nofun, ?_⟩)
    unfold checkTrust
    split_ifs
    · exact hnone
    · exact hsend .pairBegin nofun
  | pairingRecv info st msg hs => exact Or.inr (Or.inr ⟨nofun, by cases msg <;> exact hnone⟩)
  | pairingCmd info st cmd epoch hs =>
    refine Or.inr (Or.inr ⟨nofun, ?_⟩)
    cases cmd with
    | confirm => exact hsend .pairConfirm nofun
    | cancel | disconnect => exact hsend (.pairCancel "user cancelled") nofun
    | _ => exact hnone
  | pairingCmdClosed info st hs => exact Or.inr (Or.inr ⟨nofun, hsend (.pairCancel "user cancelled") nofun⟩)
  | store info err hs => exact Or.inr (Or.inr ⟨nofun, by cases err <;> exact hnone⟩)
  | wire info epoch desktop err hs => exact Or.inr (Or.inr ⟨nofun, hdata (saysData_wire core s info epoch desktop err)⟩)
  | runningRecv info msg hs => exact Or.inr (Or.inr ⟨nofun, hdata (saysData_runningRecv core s info msg)⟩)
  | runningCmd info cmd epoch hs => exact Or.inr (Or.inr ⟨nofun, hdata (saysData_runningCmd core s info cmd epoch)⟩)
  | tick info hs => exact Or.inr (Or.inr ⟨nofun, hdata (saysData_tick s info)⟩)
  | host t edge captured edgeNow hhost hlive =>
    exact Or.inr (Or.inr ⟨nofun, hdata (saysData_hostStep ar core s t edge captured edgeNow)⟩)
  | clipboard text hclip => exact Or.inr (Or.inr ⟨nofun, hsend (.clipboard (.text text)) nofun⟩)
  | _ => exact Or.inr (Or.inr ⟨nofun, hnone⟩)

/-- What `s` has sent to `r`, as far as the Hello goes. -/
structure HelloInv (reliable : Prop) (info : DeviceInfo) (s r : Session) : Prop where
  fresh : s.phase = .start → s = .new s.role s.peerIp s.key s.cert
  /-- Only the first message in the queue can be a Hello, and then it is this device's. -/
  tail : r.phase.awaitsHello = true → (∀ msg ∈ s.out.tail, msg.abs ≠ none) ∧
    ∀ v i, s.out.head? = some (.hello v i) → v = PROTOCOL_VERSION ∧ i = info
  first : reliable → r.phase.awaitsHello = true → s.phase ≠ .start →
    s.out.head? = some (.hello PROTOCOL_VERSION info)
  later : r.phase.awaitsHello = false → r.phase.finished = false → s.phase ≠ .start ∧ ∀ msg ∈ s.out, msg.abs ≠ none

theorem helloInv_new {reliable : Prop} {info : DeviceInfo} {role role' : Role} {ip ip' : IpAddr} {key : SessionKey}
    {cert cert' : Bytes} : HelloInv reliable info (.new role ip key cert) (.new role' ip' key cert') := by
  constructor
  · exact fun _ => rfl
  · intro _
    constructor
    · intro msg hmsg
      cases hmsg
    · intro v i hmsg
      cases hmsg
  · exact fun _ _ hnot => absurd rfl hnot
  · intro hawaits
    cases hawaits

theorem start_left (hnew : s = .new s.role s.peerIp s.key s.cert) (hstep : s.step ar core event = some p) :
    event = .sayHello ∨ ∃ err, event = .closed err := by
  have hphase : s.phase = .start := by rw [hnew]; rfl
  cases steps_of_step hstep with
  | sayHello hs => exact Or.inl rfl
  | startClosed err hs => exact Or.inr ⟨err, rfl⟩
  | writerDied hslot =>
    rw [hnew] at hslot
    cases hslot
  | host t edge captured edgeNow hhost hlive =>
    rw [hnew] at hhost
    cases hhost
  | hostExit t hhost hstop =>
    rw [hnew] at hhost
    cases hhost
  | sender i ev t t' ht hstep' =>
    rw [hnew] at ht
    cases ht
  | clipboard text hclip =>
    rw [hnew] at hclip
    cases hclip
  | recvHello _ hs | helloClosed _ hs | setSlot _ hs | checkTrust _ hs | pairingRecv _ _ _ hs | pairingClosed _ _ _ hs
  | pairingCmd _ _ _ _ hs | pairingCmdClosed _ _ hs | store _ _ hs | wire _ _ _ _ hs | runningRecv _ _ hs
  | runningClosed _ _ hs | runningCmd _ _ _ hs | runningCmdClosed _ hs | tick _ hs | teardown _ _ hs | clipExit _ hs =>
    rw [hphase] at hs
    cases hs

theorem HelloInv.speak {reliable : Prop} {r r' : Session} (h : HelloInv reliable core.deviceInfo s r)
    (hstep : s.step ar core event = some p) (hr' : r'.phase = r.phase)
    (hrel : reliable → (event = .writerDied ∨ ∃ err, event = .closed err) → r.phase.finished = true) :
    HelloInv reliable core.deviceInfo p.2 r' := by
  have hmoves := step_moves hstep
  have hexcl : r.phase.awaitsHello = true → r.phase.finished ≠ true := by
    intro hawaits hover
    cases hphase : r.phase with
    | start | hello =>
      rw [hphase] at hover
      cases hover
    | _ =>
      rw [hphase] at hawaits
      cases hawaits
  constructor
  · intro hstart
    obtain ⟨hwas, hthread⟩ := Phase.start_of_moves hmoves hstart
    rcases start_left (h.fresh hwas) hstep with rfl | ⟨err, rfl⟩ <;> cases hthread
  · rw [hr']
    intro hawaits
    obtain ⟨htail, hhead⟩ := h.tail hawaits
    rcases said_of_step hstep with ⟨rfl, hs, hout⟩ | ⟨rfl, hout⟩ | ⟨-, msgs, hout, hmsgs⟩
    · have hnew := h.fresh hs
      rw [hnew] at hout
      rw [hout]
      refine ⟨nofun, ?_⟩
      rintro v i ⟨⟩
      exact ⟨rfl, rfl⟩
    · rw [hout]
      exact ⟨nofun, nofun⟩
    · rw [hout]
      cases hs : s.out with
      | nil =>
        refine ⟨fun msg hmsg => hmsgs msg (List.mem_of_mem_tail hmsg), fun v i hmsg => ?_⟩
        exact absurd rfl (hmsgs _ (List.mem_of_mem_head? hmsg))
      | cons first rest =>
        rw [hs] at htail hhead
        exact ⟨fun msg hmsg => (List.mem_append.mp hmsg).elim (htail msg) (hmsgs msg), hhead⟩
  · rw [hr']
    intro hreliable hawaits hnot
    rcases said_of_step hstep with ⟨rfl, hs, hout⟩ | ⟨rfl, hout⟩ | ⟨hne, msgs, hout, hmsgs⟩
    · have hnew := h.fresh hs
      rw [hnew] at hout
      rw [hout]
      rfl
    · exact absurd (hrel hreliable (Or.inl rfl)) (hexcl hawaits)
    · by_cases hs : s.phase = .start
      · rcases start_left (h.fresh hs) hstep with heq | hclosed
        · exact absurd heq hne
        · exact absurd (hrel hreliable (Or.inr hclosed)) (hexcl hawaits)
      · have hfirst := h.first hreliable hawaits hs
        rw [hout, List.head?_append, hfirst]
        rfl
  · rw [hr']
    intro hawaits hover
    obtain ⟨hs, hmsgs⟩ := h.later hawaits hover
    refine ⟨fun hstart => hs (Phase.start_of_moves hmoves hstart).1, ?_⟩
    rcases said_of_step hstep with ⟨rfl, hstart, hout⟩ | ⟨rfl, hout⟩ | ⟨-, msgs, hout, hnew⟩
    · exact absurd hstart hs
    · rw [hout]
      exact nofun
    · rw [hout]
      exact fun msg hmsg => (List.mem_append.mp hmsg).elim (hmsgs msg) (hnew msg)

theorem HelloInv.listen {reliable : Prop} {info : DeviceInfo} {r : Session} (h : HelloInv reliable info r s)
    (hstep : s.step ar core event = some p) (hhead : ∀ msg, event = .recv msg → r.out.head? = some msg) :
    HelloInv reliable info { r with out := Link.outAfter event r.out } p.2 := by
  have hmoves := step_moves hstep
  have hquiet : ∀ event : SessionEvent, (∀ msg, event ≠ .recv msg) → Link.outAfter event r.out = r.out := by
    intro event hevent
    cases event <;> first | rfl | exact absurd rfl (hevent _)
  constructor
  · intro hstart
    have hnew := h.fresh hstart
    have hempty : r.out = [] := by rw [hnew]; rfl
    have hafter : Link.outAfter event r.out = r.out := by
      rw [hempty]
      cases event <;> rfl
    rw [hafter]
    exact hnew
  · intro hawaits
    obtain ⟨hwas, hevent⟩ := Phase.awaitsHello_of_moves hmoves hawaits
    dsimp only
    rw [hquiet event hevent]
    exact h.tail hwas
  · intro hreliable hawaits hnot
    obtain ⟨hwas, hevent⟩ := Phase.awaitsHello_of_moves hmoves hawaits
    dsimp only
    rw [hquiet event hevent]
    exact h.first hreliable hwas hnot
  · intro hawaits hover
    cases hwas : s.phase.awaitsHello with
    | true =>
      obtain ⟨info', rfl⟩ := Phase.greeted_of_moves hmoves hwas hawaits hover
      refine ⟨fun hstart => ?_, (h.tail hwas).1⟩
      have hhead' := hhead _ rfl
      rw [h.fresh hstart] at hhead'
      cases hhead'
    | false =>
      obtain ⟨hs, hmsgs⟩ := h.later hwas (Phase.unfinished_of_moves hmoves hover)
      refine ⟨hs, fun msg hmsg => hmsgs msg ?_⟩
      cases event <;> first | exact hmsg | exact List.mem_of_mem_tail hmsg

theorem phase_of_recv {msg : ControlMsg} (hstep : s.step ar core (.recv msg) = some p) :
    s.phase = .hello ∨ (s.phase.awaitsHello = false ∧ s.phase.finished = false) := by
  cases steps_of_step hstep with
  | recvHello _ hs => exact Or.inl hs
  | pairingRecv info st _ hs | runningRecv info _ hs =>
    rw [hs]
    exact Or.inr ⟨rfl, rfl⟩

end Session

/-! ### The two ends -/

namespace Handshake

theorem put_self (a : State) (side : Side) : a.put side (a side) (a side.other) = a := by
  funext s
  rcases Side.eq_or_eq_other side s with rfl | rfl <;> simp [State.put]

@[simp] theorem put_side (a : State) (side : Side) (p q : Party) : a.put side p q side = p := if_pos rfl

@[simp] theorem put_other (a : State) (side : Side) (p q : Party) : a.put side p q side.other = q := by
  simp [State.put]

@[simp] theorem put_put (a : State) (side : Side) (p q p' q' : Party) :
    (a.put side p q).put side p' q' = a.put side p' q' := by
  funext s
  unfold State.put
  split_ifs <;> rfl

theorem reach_of_localMove {trusts : Side → Bool} {reliable : Prop} {a : State} {side : Side} {event : SessionEvent}
    {P : Party} (hreach : Reach trusts reliable a)
    (h : Session.LocalMove (trusts side) (a side.other).out event (a side) P)
    (hclosed : ∀ err, event = .closed err → reliable → (a side.other).stage.waiting = false ∧
      ((a side.other).out = [] ∨ (a side.other).stage = .through))
    (hdied : event = .writerDied → reliable → (a side.other).stage.waiting = false) :
    Reach trusts reliable (a.put side P (a side.other)) := by
  cases h with
  | idle => rwa [put_self]
  | enter hstage htrust => exact .step a _ hreach (.enter side hstage htrust)
  | pass hstage htrust => exact .step a _ hreach (.pass side hstage htrust)
  | confirm mine theirs hstage => exact .step a _ hreach (.confirm side mine theirs hstage)
  | cancel mine theirs hstage => exact .step a _ hreach (.cancel side mine theirs hstage)
  | data n hstage => exact .step a _ hreach (.data side n hstage)
  | close err hevent hstage => exact .step a _ hreach (.close side hstage (hclosed err hevent))
  | lose hevent => exact .step a _ hreach (.lose side (hdied hevent))

theorem out_of_reach {trusts : Side → Bool} {reliable : Prop} {a : State} (h : Reach trusts reliable a) :
    ∀ side, (a side).writer = false → (a side).out = [] := by
  induction h with
  | initial => exact fun _ => nofun
  | step a a' h hstep ih =>
    have hput : ∀ (side : Side) (p q : Party), (p.writer = false → p.out = []) → (q.writer = false → q.out = []) →
        ∀ s, (a.put side p q s).writer = false → (a.put side p q s).out = [] := by
      intro side p q hp hq s
      rcases Side.eq_or_eq_other side s with rfl | rfl <;> simpa [State.put]
    have hsend : ∀ (side : Side) (msgs : List Msg),
        ((a side).send msgs).writer = false → ((a side).send msgs).out = [] := by
      intro side msgs (hwriter : (a side).writer = false)
      simp [Party.send, hwriter, ih side hwriter]
    cases hstep with
    | enter side => exact hput side _ _ (hsend side _) (ih _)
    | pass side => exact hput side _ _ (ih side) (ih _)
    | confirm side | cancel side => exact hput side _ _ (hsend side _) (ih _)
    | deliver side msg rest hstage hout =>
      refine hput side _ _ (ih side) fun hwriter => ?_
      rw [ih _ hwriter] at hout
      cases hout
    | data side n => exact hput side _ _ (hsend side _) (ih _)
    | close side => exact hput side _ _ (ih side) (ih _)
    | lose side => exact hput side _ _ (fun _ => rfl) (ih _)

end Handshake

namespace Link

variable {x : Crates} {ar : Arith} {l l' : Link x} {e : LinkEvent} {side : Side} {event : SessionEvent}

/-- `side`'s trust store has the other device. -/
def trusts (core : Side → AppCore x) (side : Side) : Bool :=
  (core side).trust.isTrusted (core side.other).identity.fingerprint

/-- The event is one of `side`, and `test` holds of it and of what is unread. -/
def Marks (test : Session → SessionEvent → List ControlMsg → Bool) (side : Side) (l : Link x) (e : LinkEvent) : Prop :=
  ∃ event, l.acts e = some (side, event) ∧ test (l.session side) event (l.session side.other).out = true

instance decidableMarks (test : Session → SessionEvent → List ControlMsg → Bool) (side : Side) (l : Link x)
    (e : LinkEvent) : Decidable (Marks test side l e) :=
  match h : l.acts e with
  | none => isFalse fun ⟨_, hacts, _⟩ => nomatch h.symm.trans hacts
  | some (side', event) =>
    decidable_of_iff (side' = side ∧ test (l.session side) event (l.session side.other).out = true) (by
      simp [Marks, h])

/-- The user of `side` confirms in its pairing loop. -/
abbrev Confirms (side : Side) : Link x → LinkEvent → Prop := Marks (fun s event _ => s.confirms event) side

/-- The user of `side` cancels or disconnects in its pairing loop. -/
abbrev Cancels (side : Side) : Link x → LinkEvent → Prop := Marks (fun s event _ => s.cancels event) side

/-- `side` sees the end of the stream in its pairing loop, with the other's confirmation unread. -/
abbrev Misses (side : Side) : Link x → LinkEvent → Prop := Marks Session.misses side

theorem seen_marks_snoc {test : Session → SessionEvent → List ControlMsg → Bool} {start : Link x} {es : List LinkEvent}
    (hrun : run (step ar) start es = some l) (hacts : l.acts e = some (side, event)) (side' : Side) :
    Seen (step ar) (Marks test side') start (es ++ [e]) ↔ Seen (step ar) (Marks test side') start es ∨
      (side' = side ∧ test (l.session side) event (l.session side.other).out = true) := by
  rw [seen_snoc hrun]
  refine or_congr_right ⟨?_, ?_⟩
  · rintro ⟨event', hacts', htest⟩
    rw [hacts] at hacts'
    cases hacts'
    exact ⟨rfl, htest⟩
  · rintro ⟨rfl, htest⟩
    exact ⟨event, hacts, htest⟩

theorem flag_snoc {test : Session → SessionEvent → List ControlMsg → Bool} (flag : Party → Bool) {start : Link x}
    {es : List LinkEvent} {a : State} {P Q : Party} (hrun : run (step ar) start es = some l)
    (hacts : l.acts e = some (side, event))
    (hflag : ∀ side, flag (a side) = true ↔ Seen (step ar) (Marks test side) start es)
    (hP : flag P = (flag (a side) || test (l.session side) event (l.session side.other).out))
    (hQ : flag Q = flag (a side.other)) (side' : Side) :
    flag (a.put side P Q side') = true ↔ Seen (step ar) (Marks test side') start (es ++ [e]) := by
  rw [seen_marks_snoc hrun hacts, ← hflag]
  rcases Side.eq_or_eq_other side side' with rfl | rfl
  · simp [State.put, hP]
  · simp [State.put, hQ]

/-- After the run `es` from `start`, where the devices were `core`, the two ends are the two parties `a`. -/
structure Sim (ar : Arith) (reliable : Prop) (core : Side → AppCore x) (start : Link x) (es : List LinkEvent)
    (l : Link x) (a : State) : Prop where
  party : ∀ side, Session.Abstracts (core side.other).identity.fingerprint (trusts core side) (l.core side)
    (l.session side) (a side)
  hello : ∀ side, Session.HelloInv reliable (core side).deviceInfo (l.session side) (l.session side.other)
  info : ∀ side, (l.core side).deviceInfo = (core side).deviceInfo
  whole : reliable → l.broken = false
  confirmed : ∀ side, (a side).confirmed = true ↔ Seen (step ar) (Confirms side) start es
  cancelled : ∀ side, (a side).cancelled = true ↔ Seen (step ar) (Cancels side) start es
  lost : ∀ side, (a side).lost = true ↔ Seen (step ar) (Misses side) start es

variable {reliable : Prop} {core : Side → AppCore x} {start : Link x} {es : List LinkEvent} {a : State}

theorem Sim.act {P : Party} (h : Sim ar reliable core start es l a) (hrun : run (step ar) start es = some l)
    (hstep : step ar l e = some l') (hacts : l.acts e = some (side, event))
    (hparty : Session.Abstracts (core side.other).identity.fingerprint (trusts core side) (l'.core side)
      (l'.session side) P)
    (hrecords : Session.Records (l.session side) event (l.session side.other).out (a side) P) :
    Sim ar reliable core start (es ++ [e]) l' (a.put side P { a side.other with
      out := (outAfter event (l.session side.other).out).filterMap ControlMsg.abs }) := by
  obtain ⟨p, hp, hcore, hsession, hcore', hsession', hbroken⟩ := step_of_acts hstep hacts
  obtain ⟨hconfirmed, hcancelled, hlost⟩ := hrecords
  have hother := h.party side.other
  have hhello := h.hello side.other
  rw [Side.other_other] at hother hhello
  constructor
  case party =>
    intro side'
    rcases Side.eq_or_eq_other side side' with rfl | rfl
    · simpa [State.put] using hparty
    · simp only [State.put, if_neg (Side.other_ne side), if_true, hcore', hsession', Side.other_other]
      exact ⟨hother.stage, rfl, hother.writer, hother.info, hother.threads, hother.trust⟩
  case hello =>
    intro side'
    rcases Side.eq_or_eq_other side side' with rfl | rfl
    · have hspeaker := h.hello side'
      rw [← h.info] at hspeaker
      rw [hsession, hsession', ← h.info]
      refine hspeaker.speak hp rfl fun hrel hended => ?_
      have hstream : event.ofStream = true := by
        rcases hended with rfl | ⟨err, rfl⟩ <;> rfl
      have hwhole : l.broken ≠ true := fun hb => Bool.noConfusion (hb.symm.trans (h.whole hrel))
      rcases stream_of_acts hstep hacts hstream with ⟨msg, rfl, -⟩ | ⟨err, rfl, hend⟩ | ⟨rfl, hend⟩
      · rcases hended with hended | ⟨err, hended⟩ <;> cases hended
      · exact (Bool.and_eq_true_iff.mp (hend.resolve_left hwhole)).1
      · exact hend.resolve_left hwhole
    · rw [Side.other_other, hsession, hsession']
      refine hhello.listen hp fun msg hmsg => ?_
      subst hmsg
      rcases stream_of_acts hstep hacts rfl with ⟨msg', heq, hhead⟩ | ⟨err, heq, -⟩ | ⟨heq, -⟩
      · cases heq
        exact hhead
      · cases heq
      · cases heq
  case info =>
    intro side'
    rcases Side.eq_or_eq_other side side' with rfl | rfl
    · rw [hcore, (Session.step_const hp).2.2.2.2, h.info]
    · rw [hcore', h.info]
  case whole => exact fun hrel => hbroken.trans (h.whole hrel)
  case confirmed => exact flag_snoc Party.confirmed hrun hacts h.confirmed hconfirmed rfl
  case cancelled => exact flag_snoc Party.cancelled hrun hacts h.cancelled hcancelled rfl
  case lost => exact flag_snoc Party.lost hrun hacts h.lost hlost rfl

theorem Sim.done_of_finished (h : Sim ar reliable core start es l a) (hover : (l.session side).phase.finished = true) :
    (a side).stage.waiting = false := by
  have habs := (h.party side).stage
  cases hphase : (l.session side).phase with
  | ended result =>
    rw [hphase] at habs
    exact habs.1
  | _ =>
    rw [hphase] at hover
    cases hover

theorem Sim.guard_of_ended (h : Sim ar reliable core start es l a) (hreach : Reach (trusts core) reliable a)
    (hended : l.ended side = true) :
    (a side).stage.waiting = false ∧ ((a side).out = [] ∨ (a side).stage = .through) := by
  obtain ⟨hover, hout⟩ := Bool.and_eq_true_iff.mp hended
  refine ⟨h.done_of_finished hover, ?_⟩
  rcases Bool.or_eq_true_iff.mp hout with hempty | hwriter
  · rw [(h.party side).out, List.isEmpty_iff.mp hempty]
    exact Or.inl rfl
  · rcases (h.party side).writer with heq | ⟨hthrough, -⟩
    · rw [Bool.not_eq_true'] at hwriter
      exact Or.inl (out_of_reach hreach side (heq.trans hwriter))
    · exact Or.inr hthrough

theorem Sim.unread_eq (h : Sim ar reliable core start es l a) (side : Side) :
    (l.session side).out.filterMap ControlMsg.abs = (a side).out := (h.party side).out.symm

theorem Sim.local (h : Sim ar reliable core start es l a) (hreach : Reach (trusts core) reliable a)
    (hrun : run (step ar) start es = some l) (hstep : step ar l e = some l')
    (hacts : l.acts e = some (side, event)) (hrecv : ∀ msg, event ≠ .recv msg) :
    ∃ a', Reach (trusts core) reliable a' ∧ Sim ar reliable core start (es ++ [e]) l' a' := by
  obtain ⟨p, hp, hcore, hsession, -⟩ := step_of_acts hstep hacts
  have hwhole : reliable → l.broken ≠ true := fun hrel hb => Bool.noConfusion (hb.symm.trans (h.whole hrel))
  have hcmd : event ≠ .cmdClosed := by
    rintro rfl
    rcases stream_of_acts hstep hacts rfl with ⟨msg, heq, -⟩ | ⟨err, heq, -⟩ | ⟨heq, -⟩ <;> cases heq
  obtain ⟨P, hmove, hparty, hrecords⟩ :=
    Session.abstracts_local (l.session side.other).out (h.party side) hp hrecv hcmd
  rw [← hcore, ← hsession] at hparty
  rw [h.unread_eq] at hmove
  have hquiet : outAfter event (l.session side.other).out = (l.session side.other).out := by
    cases event <;> first | rfl | exact absurd rfl (hrecv _)
  have hsim := h.act hrun hstep hacts hparty hrecords
  rw [hquiet, h.unread_eq] at hsim
  refine ⟨_, reach_of_localMove hreach hmove (fun err heq hrel => ?_) fun heq hrel => ?_, hsim⟩
  · subst heq
    rcases stream_of_acts hstep hacts rfl with ⟨msg, heq, -⟩ | ⟨err', heq, hend⟩ | ⟨heq, -⟩
    · cases heq
    · exact h.guard_of_ended hreach (hend.resolve_left (hwhole hrel))
    · cases heq
  · subst heq
    rcases stream_of_acts hstep hacts rfl with ⟨msg, heq, -⟩ | ⟨err', heq, -⟩ | ⟨-, hend⟩
    · cases heq
    · cases heq
    · exact h.done_of_finished (hend.resolve_left (hwhole hrel))

theorem Sim.recv {msg : ControlMsg} (h : Sim ar reliable core start es l a) (hreach : Reach (trusts core) reliable a)
    (hrun : run (step ar) start es = some l) (hstep : step ar l e = some l')
    (hacts : l.acts e = some (side, .recv msg)) :
    ∃ a', Reach (trusts core) reliable a' ∧ Sim ar reliable core start (es ++ [e]) l' a' := by
  obtain ⟨p, hp, hcore, hsession, -⟩ := step_of_acts hstep hacts
  obtain ⟨rest, hout⟩ := queue_of_recv hstep hacts
  obtain ⟨hphello, hlater⟩ : ((l.session side).phase = .hello → ∀ v info, msg = .hello v info →
      v = PROTOCOL_VERSION ∧ info.id.id = (core side.other).identity.fingerprint) ∧
      ((l.session side).phase ≠ .hello → msg.abs ≠ none) := by
    have hhello := h.hello side.other
    rw [Side.other_other] at hhello
    constructor
    · rintro hphase v info rfl
      obtain ⟨hv, hinfo⟩ := (hhello.tail (by rw [hphase]; rfl)).2 v info (by rw [hout]; rfl)
      exact ⟨hv, hinfo ▸ rfl⟩
    · intro hphase
      obtain ⟨hawaits, hover⟩ := (Session.phase_of_recv hp).resolve_left hphase
      exact (hhello.later hawaits hover).2 msg (by rw [hout]; exact List.mem_cons_self)
  have hafter : outAfter (.recv msg) (l.session side.other).out = rest := by rw [hout]; rfl
  have hqueue := h.unread_eq side.other
  rw [hout] at hqueue
  have hrecords : ∀ P' : Party, P'.confirmed = (a side).confirmed ∧ P'.cancelled = (a side).cancelled ∧
      P'.lost = (a side).lost → Session.Records (l.session side) (.recv msg) (l.session side.other).out (a side) P' :=
    fun P' hsame => Session.records_quiet rfl hsame
  have hact : ∀ P', Session.Abstracts (core side.other).identity.fingerprint (trusts core side) p.1 p.2 P' →
      (P'.confirmed = (a side).confirmed ∧ P'.cancelled = (a side).cancelled ∧ P'.lost = (a side).lost) →
      Sim ar reliable core start (es ++ [e]) l'
        (a.put side P' { a side.other with out := rest.filterMap ControlMsg.abs }) := by
    intro P' hparty hsame
    rw [← hcore, ← hsession] at hparty
    have hsim := h.act hrun hstep hacts hparty (hrecords P' hsame)
    rwa [hafter] at hsim
  rcases Session.abstracts_recv (h.party side) hp hphello hlater with
    ⟨hphase, habs, hparty⟩ | ⟨hphase, habs, hearly, hparty⟩ | ⟨m, n, habs, hearly, hn, hparty⟩
  · -- the Hello is no message of the handshake
    rw [List.filterMap_cons_none habs] at hqueue
    have hsim := hact _ hparty ⟨rfl, rfl, rfl⟩
    rw [hqueue, put_self] at hsim
    exact ⟨a, hreach, hsim⟩
  · -- something else in its place ends the session; on a reliable connection the Hello comes first
    obtain ⟨m, hm⟩ := Option.ne_none_iff_exists'.mp habs
    rw [List.filterMap_cons_some hm] at hqueue
    have hunreliable : ¬ reliable := by
      intro hrel
      have hhello := h.hello side.other
      rw [Side.other_other] at hhello
      have hfirst := hhello.first hrel (by rw [hphase]; rfl) fun hstart => ?_
      · rw [hout] at hfirst
        cases hfirst
        exact habs rfl
      · have hnew := hhello.fresh hstart
        rw [hnew] at hout
        cases hout
    have hclose : (a side).close (a side.other).out = { a side with stage := .failed } := by
      simp [Party.close, hearly, Stage.misses]
    have hreach' := Reach.step a _ hreach
      (.close side (by rw [hearly]; rfl) fun hrel => absurd hrel hunreliable)
    rw [hclose] at hreach'
    have hreach'' := Reach.step _ _ hreach' (.deliver side m (rest.filterMap ControlMsg.abs) (by simp)
      (by simpa using hqueue.symm))
    refine ⟨_, hreach'', ?_⟩
    simpa [Stage.receive] using hact _ hparty ⟨rfl, rfl, rfl⟩
  · rw [List.filterMap_cons_some habs] at hqueue
    have hreach' := Reach.step a _ hreach (.deliver side m _ hearly hqueue.symm)
    have hsim := hact _ hparty ⟨rfl, rfl, rfl⟩
    rcases hn with rfl | hthrough
    · have hsend : ∀ P : Party, P.send (List.replicate 0 .data) = P := fun P => by simp [Party.send]
      rw [hsend] at hsim
      exact ⟨_, hreach', hsim⟩
    · have hreach'' := Reach.step _ _ hreach' (.data side n (by simpa using hthrough))
      refine ⟨_, hreach'', ?_⟩
      simpa using hsim

theorem sim_initial (reliable : Prop) (core : Side → AppCore x) (ip : IpAddr) (edge : ScreenEdge) (peer : IpAddr)
    (key : SessionKey) :
    Sim ar reliable core (initial core ip edge peer key) [] (initial core ip edge peer key) .initial := by
  have hnew : ∀ side, ∃ role addr, (initial core ip edge peer key).session side =
      .new role addr key (core side.other).identity.certDer := by
    intro side
    cases side
    · exact ⟨_, _, rfl⟩
    · exact ⟨_, _, rfl⟩
  have hflag : ∀ test : Session → SessionEvent → List ControlMsg → Bool, ∀ side, false = true ↔
      Seen (step ar) (Marks test side) (initial core ip edge peer key) [] := by
    intro test side
    rw [iff_false_intro Bool.false_ne_true, iff_false_intro (not_seen_nil _ _)]
  constructor
  case party =>
    intro side
    obtain ⟨role, addr, hsession⟩ := hnew side
    rw [hsession]
    exact Session.abstracts_new rfl
  case hello =>
    intro side
    obtain ⟨role, addr, hsession⟩ := hnew side
    obtain ⟨role', addr', hother⟩ := hnew side.other
    rw [hsession, hother]
    exact Session.helloInv_new
  case info => exact fun _ => rfl
  case whole => exact fun _ => rfl
  case confirmed | cancelled | lost => exact hflag _

/-- Every run of the two ends is a run of the handshake; a connection that is not broken is reliable. -/
theorem run_refines (reliable : Prop) (core : Side → AppCore x) (ip : IpAddr) (edge : ScreenEdge) (peer : IpAddr)
    (key : SessionKey) (hrun : run (step ar) (initial core ip edge peer key) es = some l)
    (hwhole : reliable → .breaks ∉ es) :
    ∃ a, Reach (trusts core) reliable a ∧ Sim ar reliable core (initial core ip edge peer key) es l a := by
  have hall : (reliable → .breaks ∉ es) →
      ∃ a, Reach (trusts core) reliable a ∧ Sim ar reliable core (initial core ip edge peer key) es l a := by
    refine run_induction (P := fun es l => (reliable → LinkEvent.breaks ∉ es) →
      ∃ a, Reach (trusts core) reliable a ∧ Sim ar reliable core (initial core ip edge peer key) es l a) ?_ ?_ es l hrun
    · exact fun _ => ⟨_, .initial, sim_initial reliable core ip edge peer key⟩
    · intro es l e l' hrun ih hstep hwhole
      obtain ⟨a, hreach, hsim⟩ := ih fun hrel hmem => hwhole hrel (List.mem_append_left _ hmem)
      cases hacts : l.acts e with
      | none =>
        obtain ⟨rfl, rfl⟩ := eq_breaks_of_idle hstep hacts
        have hmarks : ∀ test side, Seen (step ar) (Marks test side) (initial core ip edge peer key) (es ++ [.breaks]) ↔
            Seen (step ar) (Marks test side) (initial core ip edge peer key) es := by
          intro test side
          rw [seen_snoc hrun]
          apply or_iff_left
          rintro ⟨event, heq, -⟩
          cases heq
        exact ⟨a, hreach, hsim.party, hsim.hello, hsim.info,
          fun hrel => absurd (List.mem_append_right _ (List.mem_singleton_self _)) (hwhole hrel),
          fun side => (hsim.confirmed side).trans (hmarks _ side).symm,
          fun side => (hsim.cancelled side).trans (hmarks _ side).symm,
          fun side => (hsim.lost side).trans (hmarks _ side).symm⟩
      | some acts =>
        obtain ⟨side, event⟩ := acts
        by_cases hrecv : ∃ msg, event = .recv msg
        · obtain ⟨msg, rfl⟩ := hrecv
          exact hsim.recv hreach hrun hstep hacts
        · exact hsim.local hreach hrun hstep hacts fun msg heq => hrecv ⟨msg, heq⟩
  exact hall hwhole

end Link

end ScreenLink
