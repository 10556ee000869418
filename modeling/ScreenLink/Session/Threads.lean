import ScreenLink.Session.Moves

/-!
# The threads of a session

How one step of a session can change its input loop's thread (`host_of_step`) and its mirror senders
(`senders_of_step`); that the two loops touch their channels by `seal` calls only (`hostIter_seals`,
`MirrorSender.step_seals`), and what the input loop emits (`hostIter_out`).
-/

namespace ScreenLink

/-! ### The input loop -/

/-- What the loop emits itself, besides packets. -/
def HostOut.ofLoop : HostOut → Prop
  | .suppress _ | .park _ _ | .event (.status _) | .event (.controlOnRemote _) | .ctrl (.edgeEnter _ _)
  | .ctrl .edgeLeave => True
  | _ => False

/-- A property of the channel, the numbers used and the output that the loop's two ways to the outside keep. -/
structure KeptByLoop (x : Crates) (P : RealtimeCrypto → List (BitVec 64) → List HostOut → Prop) : Prop where
  sendRt : ∀ (h : HostInput) ev, P h.rt h.sealed h.out → P (h.sendRt x ev).rt (h.sendRt x ev).sealed (h.sendRt x ev).out
  emit : ∀ rt sealed out o, HostOut.ofLoop o → P rt sealed out → P rt sealed (out ++ [o])

section

variable {x : Crates} {P : RealtimeCrypto → List (BitVec 64) → List HostOut → Prop}

namespace HostInput

def Holds (P : RealtimeCrypto → List (BitVec 64) → List HostOut → Prop) (h : HostInput) : Prop :=
  P h.rt h.sealed h.out

theorem foldl_holds {α : Type*} {f : HostInput → α → HostInput} (hf : ∀ h a, Holds P h → Holds P (f h a))
    (as : List α) (h : HostInput) (hh : Holds P h) : Holds P (as.foldl f h) := by
  induction as generalizing h with
  | nil => exact hh
  | cons a as ih => exact ih (f h a) (hf h a hh)

theorem sendKeyRepeat_holds (hP : KeptByLoop x P) (h : HostInput) (key : Key) (pressed : Bool) (hh : Holds P h) :
    Holds P (h.sendKeyRepeat x key pressed) :=
  foldl_holds hP.sendRt _ h hh

theorem releaseHeld_holds (hP : KeptByLoop x P) (h : HostInput) (hh : Holds P h) : Holds P (h.releaseHeld x) :=
  foldl_holds (fun h key hh => sendKeyRepeat_holds hP h key false hh) _ _ hh

theorem snap_holds (hP : KeptByLoop x P) (h : HostInput) (hh : Holds P h) : Holds P (h.snap x) := by
  unfold snap
  dsimp only
  split
  · exact hP.emit _ _ _ _ trivial (hP.emit _ _ _ _ trivial (releaseHeld_holds hP _ (hP.emit _ _ _ _ trivial hh)))
  · exact hh

theorem seedOne_holds (hP : KeptByLoop x P) (h : HostInput) (key : Key) (hh : Holds P h) :
    Holds P (h.seedOne x key) := by
  unfold seedOne
  split
  · exact hh
  · exact sendKeyRepeat_holds hP h key true hh

theorem moveLocal_holds (hP : KeptByLoop x P) (ar : Arith) (desktop : Rect) (h : HostInput) (absX absY : Int)
    (edgeNow : ScreenEdge) (hh : Holds P h) : Holds P (h.moveLocal x ar desktop absX absY edgeNow) := by
  unfold moveLocal
  split
  · refine hP.emit _ _ _ _ trivial (foldl_holds (seedOne_holds hP) _ _ ?_)
    exact hP.emit _ _ _ _ trivial (hP.emit _ _ _ _ trivial (hP.emit _ _ _ _ trivial hh))
  · exact hh

theorem moveRemote_holds (hP : KeptByLoop x P) (ar : Arith) (desktop : Rect) (h : HostInput) (dx dy : Int)
    (edgeNow : ScreenEdge) (hh : Holds P h) : Holds P (h.moveRemote x ar desktop dx dy edgeNow) := by
  unfold moveRemote
  dsimp only
  have hsent := hP.sendRt (h.moveVirtual ar desktop dx dy)
    (.mouseMoveAbs (h.moveVirtual ar desktop dx dy).vrx (h.moveVirtual ar desktop dx dy).vry) hh
  unfold pressReturn
  split
  · exact hP.emit _ _ _ _ trivial (hP.emit _ _ _ _ trivial (releaseHeld_holds hP _
      (hP.emit _ _ _ _ trivial hsent)))
  · exact hsent

theorem inputKey_holds (hP : KeptByLoop x P) (h : HostInput) (key : Key) (pressed : Bool) (hh : Holds P h) :
    Holds P (h.inputKey x key pressed) := by
  have htrack : Holds P (h.trackLocal key pressed) := by
    unfold trackLocal
    split <;> exact hh
  unfold inputKey
  dsimp only
  split_ifs with hchord hremote hpressed
  · exact htrack
  · exact hP.sendRt _ _ htrack
  · exact hP.sendRt _ _ htrack
  · exact htrack

theorem inputOther_holds (hP : KeptByLoop x P) (h : HostInput) (ev : InputEvent) (hh : Holds P h) :
    Holds P (h.inputOther x ev) := by
  unfold inputOther
  split
  · exact hP.sendRt h ev hh
  · exact hh

end HostInput

open HostInput in
theorem hostIter_holds (hP : KeptByLoop x P) (ar : Arith) (desktop : Rect) (h : HostInput) (tick : HostTick)
    (hh : Holds P h) : Holds P (hostIter x ar desktop h tick) := by
  unfold hostIter
  dsimp only
  have hsnap : ∀ g : HostInput, Holds P g → ∀ c : Bool, Holds P (if c then g.snap x else g) := by
    intro g hg c
    cases c
    · exact hg
    · exact snap_holds hP g hg
  have hh' := hsnap { h with det := h.det.setEdge tick.edge } hh (h.snapHome || tick.snapUi)
  split
  · exact hh'
  · split
    · exact moveLocal_holds hP ar desktop _ _ _ _ hh'
    · exact moveRemote_holds hP ar desktop _ _ _ _ hh'
  · exact inputKey_holds hP _ _ _ hh'
  · exact inputOther_holds hP _ _ hh'

/-- What holds of a channel and the numbers it has used holds after one more `seal` call. -/
def KeptBySeal (x : Crates) (P : RealtimeCrypto → List (BitVec 64) → Prop) : Prop :=
  ∀ rt sealed payload, P rt sealed → P (rt.seal x payload).1 (sealed ++ [rt.sendSeq])

theorem hostIter_seals {P : RealtimeCrypto → List (BitVec 64) → Prop} (hP : KeptBySeal x P) (ar : Arith)
    (desktop : Rect) (h : HostInput) (tick : HostTick) (hh : P h.rt h.sealed) :
    P (hostIter x ar desktop h tick).rt (hostIter x ar desktop h tick).sealed := by
  refine hostIter_holds (P := fun rt sealed _ => P rt sealed) ⟨?_, fun _ _ _ _ _ h => h⟩ ar desktop h tick hh
  intro h ev hh
  unfold HostInput.sendRt
  split
  · exact hh
  · rename_i payload hpayload
    dsimp only
    split <;> exact hP h.rt h.sealed payload hh

/-- An iteration adds to the output packets and what the loop emits itself. -/
theorem hostIter_out (ar : Arith) (desktop : Rect) (h : HostInput) (tick : HostTick) :
    ∃ news, (hostIter x ar desktop h tick).out = h.out ++ news ∧
      ∀ o ∈ news, HostOut.ofLoop o ∨ ∃ ev packet, o = .udp ev packet := by
  refine hostIter_holds (P := fun _ _ out => ∃ news, out = h.out ++ news ∧
    ∀ o ∈ news, HostOut.ofLoop o ∨ ∃ ev packet, o = .udp ev packet) ⟨?_, ?_⟩ ar desktop h tick
    ⟨[], (List.append_nil _).symm, nofun⟩
  · rintro g ev ⟨news, hout, hnews⟩
    unfold HostInput.sendRt
    split
    · exact ⟨news, hout, hnews⟩
    · dsimp only
      split
      · exact ⟨news, hout, hnews⟩
      · rename_i packet hpacket
        refine ⟨news ++ [.udp ev packet], by simp [HostInput.emit, hout], fun o ho => ?_⟩
        rcases List.mem_append.mp ho with hold | hnew
        · exact hnews o hold
        · exact Or.inr ⟨_, _, List.mem_singleton.mp hnew⟩
  · rintro rt sealed out o ho ⟨news, rfl, hnews⟩
    refine ⟨news ++ [o], List.append_assoc .., fun o' ho' => ?_⟩
    rcases List.mem_append.mp ho' with hold | hnew
    · exact hnews o' hold
    · rw [List.mem_singleton.mp hnew]
      exact Or.inl ho

end

/-! ### The mirror senders -/

section

variable {x : Crates}

/-- The sender's next chunk is sealed. -/
def MirrorSender.seals (x : Crates) (t : MirrorSender) (ev : SenderEvent) : Prop :=
  ev = .chunk ∧ ∃ chunk rest, t.pending = some (chunk :: rest) ∧ (x.encodeChunk chunk).isSome

/-- A step of a sender makes one `seal` call or none. -/
theorem MirrorSender.step_seals {t t' : MirrorSender} {ev : SenderEvent} (h : t.step x ev = some t') :
    (t.seals x ev ∧ ∃ payload, t'.rt = (t.rt.seal x payload).1 ∧ t'.sealed = t.sealed ++ [t.rt.sendSeq]) ∨
      (¬ t.seals x ev ∧ t'.rt = t.rt ∧ t'.sealed = t.sealed) := by
  unfold MirrorSender.step at h
  split at h
  case h_1 frame hpending =>
    split_ifs at h
    cases h
    have hnot : ¬ t.seals x (.head frame) := by
      rintro ⟨hchunk, -⟩
      cases hchunk
    refine Or.inr ⟨hnot, ?_⟩
    unfold MirrorSender.head
    split_ifs
    · exact ⟨rfl, rfl⟩
    · cases frame <;> exact ⟨rfl, rfl⟩
  case h_2 chunk rest hpending =>
    cases h
    cases hencode : x.encodeChunk chunk with
    | none =>
      refine Or.inr ⟨?_, by simp [sendChunk, hencode], by simp [sendChunk, hencode]⟩
      rintro ⟨-, chunk', rest', hpending', hsome⟩
      rw [hpending] at hpending'
      cases hpending'
      rw [hencode] at hsome
      cases hsome
    | some payload =>
      refine Or.inl ⟨⟨rfl, chunk, rest, hpending, by rw [hencode]; rfl⟩, payload, ?_⟩
      simp only [sendChunk, hencode]
      split <;> exact ⟨rfl, rfl⟩
  case h_3 hpending =>
    cases h
    refine Or.inr ⟨?_, rfl, rfl⟩
    rintro ⟨-, chunk', rest', hpending', -⟩
    rw [hpending] at hpending'
    cases hpending'
  case h_4 => cases h

end

namespace Session

variable {x : Crates} {ar : Arith} {core : AppCore x} {s : Session} {event : SessionEvent} {p : AppCore x × Session}

/-! ### Steps -/

/-- How one step changes the mirror senders. -/
inductive SendersMove (x : Crates) (s : Session) (event : SessionEvent) : List MirrorSender → Prop
  | same : SendersMove x s event s.senders
  | halted (i : ℕ) : SendersMove x s event (s.senders.modify i MirrorSender.halt)
  | spawned (epoch : BitVec 64) : SendersMove x s event (s.senders ++ [.spawn (s.videoKey x) epoch])
  | stepped (i : ℕ) (ev : SenderEvent) (t t' : MirrorSender) (hevent : event = .sender i ev)
    (ht : s.senders[i]? = some t) (hstep : t.step x ev = some t') : SendersMove x s event (s.senders.set i t')

/-- How one step, into this phase, changes the input loop's thread. -/
inductive HostMove (x : Crates) (ar : Arith) (s : Session) : Phase → Option HostThread → Prop
  | same (phase : Phase) : HostMove x ar s phase s.host
  | started (peerIp : IpAddr) (edge : ScreenEdge) (epoch : BitVec 64) (desktop : Rect) (info : DeviceInfo)
    (hrole : s.role = .controller peerIp edge) (hs : s.phase = .authenticated info) :
    HostMove x ar s (.running info)
      (some ⟨.start edge 25 (.new s.key epoch true), desktop, [edge], false, false⟩)
  | kept (phase : Phase) (h h' : HostThread) (hh : s.host = some h)
    (hinput : h'.input.rt = h.input.rt ∧ h'.input.sealed = h.input.sealed) : HostMove x ar s phase (some h')
  | iterated (phase : Phase) (h : HostThread) (tick : HostTick) (hh : s.host = some h) :
    HostMove x ar s phase (some { h with input := hostIter x ar h.desktop h.input tick })

theorem HostMove.map {phase : Phase} {f : HostThread → HostThread}
    (hf : ∀ h, (f h).input.rt = h.input.rt ∧ (f h).input.sealed = h.input.sealed) :
    HostMove x ar s phase (s.host.map f) := by
  cases hh : s.host with
  | none =>
    rw [Option.map_none, ← hh]
    exact .same phase
  | some h => exact .kept phase h (f h) hh (hf h)

theorem threads_checkTrust (core : AppCore x) (s : Session) (info : DeviceInfo) :
    (checkTrust core s info).2.host = s.host ∧ (checkTrust core s info).2.senders = s.senders := by
  unfold checkTrust
  split_ifs <;> exact ⟨rfl, rfl⟩

theorem threads_recvHello (s : Session) (msg : ControlMsg) :
    (s.recvHello msg).host = s.host ∧ (s.recvHello msg).senders = s.senders := by
  unfold recvHello
  split
  · split_ifs <;> exact ⟨rfl, rfl⟩
  · exact ⟨rfl, rfl⟩

theorem threads_tick (s : Session) (info : DeviceInfo) :
    (s.tick info).host = s.host ∧ (s.tick info).senders = s.senders := by
  unfold tick
  dsimp only
  split_ifs <;> exact ⟨rfl, rfl⟩

theorem threads_runningRecv (core : AppCore x) (s : Session) (info : DeviceInfo) (msg : ControlMsg) :
    (runningRecv core s info msg).2.host = s.host ∧ (runningRecv core s info msg).2.senders = s.senders := by
  have hmirror : (mirrorInbound core s info msg).2.host = s.host ∧
      (mirrorInbound core s info msg).2.senders = s.senders := by
    have htake : s.takeReceiver.host = s.host ∧ s.takeReceiver.senders = s.senders := by
      unfold takeReceiver
      split <;> exact ⟨rfl, rfl⟩
    cases msg with
    | startMirror epoch => exact htake
    | stopMirror => exact htake
    | _ => exact ⟨rfl, rfl⟩
  have hinbound : ∀ (core : AppCore x) (s : Session), (handleInbound core s info msg).2.1.host = s.host ∧
      (handleInbound core s info msg).2.1.senders = s.senders := by
    intro core s
    unfold handleInbound
    split
    case h_1 | h_2 | h_3 => split <;> exact ⟨rfl, rfl⟩
    case h_6 => split_ifs <;> exact ⟨rfl, rfl⟩
    all_goals exact ⟨rfl, rfl⟩
  obtain ⟨hhost, hsenders⟩ := hinbound (mirrorInbound core s info msg).1 (mirrorInbound core s info msg).2
  unfold runningRecv
  dsimp only
  split <;> exact ⟨hhost.trans hmirror.1, hsenders.trans hmirror.2⟩

theorem host_runningCmd (core : AppCore x) (s : Session) (info : DeviceInfo) (cmd : SessionCmd)
    (epoch : BitVec 64) :
    HostMove x ar s (runningCmd core s info cmd epoch).2.phase (runningCmd core s info cmd epoch).2.host := by
  cases cmd with
  | snapHome => exact .map fun h => ⟨rfl, rfl⟩
  | setEdge edge => exact .map fun h => ⟨rfl, rfl⟩
  | startMirror =>
    unfold runningCmd
    cases s.mirrorTx with
    | some i => exact .same _
    | none => cases s.writer <;> exact .same _
  | stopMirror =>
    unfold runningCmd
    cases s.mirrorTx <;> exact .same _
  | _ => exact .same _

theorem senders_runningCmd (core : AppCore x) (s : Session) (info : DeviceInfo) (cmd : SessionCmd)
    (epoch : BitVec 64) : SendersMove x s event (runningCmd core s info cmd epoch).2.senders := by
  cases cmd with
  | startMirror =>
    unfold runningCmd
    cases s.mirrorTx with
    | some i => exact .same
    | none =>
      cases s.writer
      · exact .same
      · exact .spawned epoch
  | stopMirror =>
    unfold runningCmd
    cases s.mirrorTx with
    | some i => exact .halted i
    | none => exact .same
  | _ => exact .same

theorem host_of_step (h : s.step ar core event = some p) : HostMove x ar s p.2.phase p.2.host := by
  cases steps_of_step h with
  | recvHello msg hs => exact (threads_recvHello s msg).1 ▸ .same _
  | checkTrust info hs => exact (threads_checkTrust core s info).1 ▸ .same _
  | pairingRecv info st msg hs => cases msg <;> exact .same _
  | pairingCmd info st cmd epoch hs => cases cmd <;> exact .same _
  | store info err hs => cases err <;> exact .same _
  | wire info epoch desktop err hs =>
    unfold wire
    dsimp only
    split
    · exact .same _
    · rename_i peerIp edge hrole
      split
      · exact .same _
      · exact .started peerIp edge epoch desktop info hrole hs
  | runningRecv info msg hs => exact (threads_runningRecv core s info msg).1 ▸ .same _
  | runningCmd info cmd epoch hs => exact host_runningCmd core s info cmd epoch
  | tick info hs => exact (threads_tick s info).1 ▸ .same _
  | teardown info result hs => exact .map fun h => ⟨rfl, rfl⟩
  | host t edge captured edgeNow hhost hlive =>
    obtain ⟨events, out, heq⟩ := hostStep_eq ar core s t edge captured edgeNow
    rw [heq]
    exact .iterated _ t _ hhost
  | hostExit t hhost hstop => exact .kept _ t _ hhost ⟨rfl, rfl⟩
  | _ => exact .same _

theorem senders_of_step (h : s.step ar core event = some p) : SendersMove x s event p.2.senders := by
  cases steps_of_step h with
  | recvHello msg hs => exact (threads_recvHello s msg).2 ▸ .same
  | checkTrust info hs => exact (threads_checkTrust core s info).2 ▸ .same
  | pairingRecv info st msg hs => cases msg <;> exact .same
  | pairingCmd info st cmd epoch hs => cases cmd <;> exact .same
  | store info err hs => cases err <;> exact .same
  | wire info epoch desktop err hs =>
    unfold wire
    dsimp only
    split
    · exact .same
    · split <;> exact .same
  | runningRecv info msg hs => exact (threads_runningRecv core s info msg).2 ▸ .same
  | runningCmd info cmd epoch hs => exact senders_runningCmd core s info cmd epoch
  | tick info hs => exact (threads_tick s info).2 ▸ .same
  | teardown info result hs =>
    unfold teardown stopThreads
    dsimp only
    split
    · exact .halted _
    · exact .same
  | host t edge captured edgeNow hhost hlive =>
    obtain ⟨events, out, heq⟩ := hostStep_eq ar core s t edge captured edgeNow
    rw [heq]
    exact .same
  | sender i ev t t' ht hstep => exact .stepped i ev t t' rfl ht hstep
  | _ => exact .same

end Session

end ScreenLink
